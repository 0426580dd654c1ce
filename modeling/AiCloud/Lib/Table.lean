import Mathlib.Data.List.Pairwise
import Mathlib.Data.List.Nodup
import Mathlib.Algebra.BigOperators.Group.List.Basic
import Mathlib.Tactic.Abel

/-!
# Constrained tables

A table is a list of rows in insertion order that carries the proof of its own declared
constraints: every row passes its CHECK clauses and no two rows clash on a UNIQUE or
PRIMARY KEY clause. A statement that would break a constraint gives no table at all, so
an invalid table cannot be built. A statement moves the total of an amount by what it
changed.
-/
namespace AiCloud.Lib
open List

/-- The largest values of SQL's `integer` and `bigint`. -/
def integerMax : Int := 2147483647
def bigintMax : Int := 9223372036854775807

structure Table (ρ : Type) (check : ρ → Prop) (clash : ρ → ρ → Prop) where
  rows : List ρ
  checked : ∀ r ∈ rows, check r
  distinct : rows.Pairwise (fun a b => ¬ clash a b)

namespace Table

variable {ρ κ : Type} {check : ρ → Prop} {clash : ρ → ρ → Prop} {p : ρ → Prop} [DecidablePred p]
  {f : ρ → ρ}

def empty : Table ρ check clash := ⟨[], by simp, Pairwise.nil⟩

/-- One row through `UPDATE ... SET f WHERE p`. -/
def touch (p : ρ → Prop) [DecidablePred p] (f : ρ → ρ) (r : ρ) : ρ := if p r then f r else r

theorem map_touch_eq_self {rows : List ρ} (h : ∀ r ∈ rows, ¬ p r) :
    rows.map (touch p f) = rows := by
  have hid : rows.map (touch p f) = rows.map id := by
    apply map_congr_left
    intro r hr
    simp [touch, h r hr]
  rw [hid, map_id]

variable (t : Table ρ check clash)

section Statements

variable [DecidablePred check] [DecidableRel clash]

/-- `INSERT`: the new row goes to the end of the table. -/
def insert (r : ρ) : Option (Table ρ check clash) :=
  if h : check r ∧ ∀ x ∈ t.rows, ¬ clash x r then some ⟨t.rows ++ [r],
      fun x hx => (mem_append.mp hx).elim (t.checked x) (fun hr => by
        rw [mem_singleton.mp hr]
        exact h.1),
      pairwise_append.mpr ⟨t.distinct, pairwise_singleton _ _, fun x hx y hy => by
        rw [mem_singleton.mp hy]
        exact h.2 x hx⟩⟩
  else none

/-- `UPDATE ... SET f WHERE p`, with the number of rows it affected. -/
def update (p : ρ → Prop) [DecidablePred p] (f : ρ → ρ) : Option (Nat × Table ρ check clash) :=
  if h : (∀ r ∈ t.rows.map (touch p f), check r) ∧
      (t.rows.map (touch p f)).Pairwise (fun a b => ¬ clash a b) then
    some (t.rows.countP (fun r => decide (p r)), ⟨t.rows.map (touch p f), h.1, h.2⟩)
  else none

variable {t : Table ρ check clash}

theorem insert_some {t' : Table ρ check clash} {r : ρ} (h : t.insert r = some t') :
    check r ∧ (∀ x ∈ t.rows, ¬ clash x r) ∧ t'.rows = t.rows ++ [r] := by
  unfold insert at h
  split at h
  · rename_i hc
    cases h
    exact ⟨hc.1, hc.2, rfl⟩
  · cases h

theorem insert_fresh {r : ρ} (hr : check r) (h : ∀ x ∈ t.rows, ¬ clash x r) :
    ∃ t', t.insert r = some t' := by
  unfold insert
  rw [dif_pos ⟨hr, h⟩]
  exact ⟨_, rfl⟩

theorem update_some {t' : Table ρ check clash} {n : Nat} (h : t.update p f = some (n, t')) :
    n = t.rows.countP (fun r => decide (p r)) ∧ t'.rows = t.rows.map (touch p f) := by
  unfold update at h
  split at h
  · cases h
    exact ⟨rfl, rfl⟩
  · cases h

theorem update_missed (h : ∀ r ∈ t.rows, ¬ p r) :
    ∃ t', t.update p f = some (0, t') := by
  have hsame : t.rows.map (touch p f) = t.rows := map_touch_eq_self h
  have hcount : t.rows.countP (fun r => decide (p r)) = 0 := by
    rw [countP_eq_zero]
    intro r hr
    simpa using h r hr
  have hvalid : (∀ r ∈ t.rows.map (touch p f), check r) ∧
      (t.rows.map (touch p f)).Pairwise (fun a b => ¬ clash a b) := by
    rw [hsame]
    exact ⟨t.checked, t.distinct⟩
  refine ⟨⟨t.rows.map (touch p f), hvalid.1, hvalid.2⟩, ?_⟩
  unfold update
  rw [dif_pos hvalid, hcount]

end Statements

section Selection

variable [DecidableEq κ]

/-- The rows with one value of a column, in insertion order. -/
def select (key : ρ → κ) (k : κ) (rows : List ρ) : List ρ := rows.filter (fun r => key r = k)

def lookup (key : ρ → κ) (k : κ) (rows : List ρ) : Option ρ := rows.find? (fun r => key r = k)

variable {key : ρ → κ} {rows : List ρ} {k : κ}

theorem mem_select {r : ρ} : r ∈ select key k rows ↔ r ∈ rows ∧ key r = k := by
  simp [select]

theorem select_append (key : ρ → κ) (k : κ) (rows : List ρ) (r : ρ) :
    select key k (rows ++ [r]) = select key k rows ++ if key r = k then [r] else [] := by
  unfold select
  rw [filter_append]
  by_cases hr : key r = k <;> simp [hr]

omit [DecidableEq κ] in
theorem touch_key (hf : ∀ r, key (f r) = key r) (r : ρ) :
    key (touch p f r) = key r := by
  unfold touch
  split
  · exact hf r
  · rfl

/-- An update that keeps the column acts on each selection by itself. -/
theorem select_touch (hf : ∀ r, key (f r) = key r)
    (k : κ) (rows : List ρ) :
    select key k (rows.map (touch p f)) = (select key k rows).map (touch p f) := by
  unfold select
  rw [filter_map]
  congr 1
  apply filter_congr
  intro r _
  simp only [Function.comp_apply, touch_key hf]

/-- An update that reaches exactly one row, and none but the last, changes
the last row in place. -/
theorem map_touch_last {past : List ρ} {last : Option ρ} (hpast : ∀ r ∈ past, ¬ p r)
    (hn : (past ++ last.toList).countP (fun r => decide (p r)) = 1) :
    ∃ cur, last = some cur ∧ p cur ∧ (past ++ last.toList).map (touch p f) = past ++ [f cur] := by
  have hp : past.countP (fun r => decide (p r)) = 0 := by
    rw [countP_eq_zero]
    intro r hr
    simpa using hpast r hr
  rw [countP_append, hp] at hn
  cases last with
  | none => simp at hn
  | some cur =>
    have hc : p cur := by
      by_contra hc
      simp [hc] at hn
    refine ⟨cur, rfl, hc, ?_⟩
    rw [map_append, map_touch_eq_self hpast]
    simp [touch, hc]

/-- Frame rule: an update confined to one value of a column leaves the
selections of all other values alone. -/
theorem select_touch_of_ne (hf : ∀ r, key (f r) = key r) {k' : κ} (hp : ∀ r, p r → key r = k)
    (hk : k' ≠ k) (rows : List ρ) : select key k' (rows.map (touch p f)) = select key k' rows := by
  rw [select_touch hf]
  apply map_touch_eq_self
  intro r hr hpr
  exact hk ((mem_select.mp hr).2.symm.trans (hp r hpr))

theorem countP_select (hp : ∀ r, p r → key r = k) (rows : List ρ) :
    (select key k rows).countP (fun r => decide (p r)) = rows.countP (fun r => decide (p r)) := by
  unfold select
  rw [countP_filter]
  apply countP_congr
  intro r _
  simp only [Bool.and_eq_true, decide_eq_true_eq, and_iff_left_iff_imp]
  exact hp r

theorem lookup_append (key : ρ → κ) (k : κ) (rows : List ρ) (r : ρ) :
    lookup key k (rows ++ [r]) = (lookup key k rows).or (if key r = k then some r else none) := by
  unfold lookup
  rw [find?_append]
  by_cases hr : key r = k <;> simp [hr]

theorem lookup_touch (hf : ∀ r, key (f r) = key r)
    (k : κ) (rows : List ρ) :
    lookup key k (rows.map (touch p f)) = (lookup key k rows).map (touch p f) := by
  unfold lookup
  rw [find?_map]
  congr 2
  funext r
  simp only [Function.comp_apply, touch_key hf]

theorem lookup_some {r : ρ} (h : lookup key k rows = some r) : r ∈ rows ∧ key r = k := by
  unfold lookup at h
  exact ⟨mem_of_find?_eq_some h, by simpa using find?_some h⟩

theorem lookup_none : lookup key k rows = none ↔ ∀ r ∈ rows, key r ≠ k := by
  simp [lookup]

omit [DecidableEq κ] in
/-- Rows that would clash with each other are one row at most. -/
theorem countP_le_one (h : ∀ a ∈ t.rows, ∀ b ∈ t.rows, p a → p b → clash a b) :
    t.rows.countP (fun r => decide (p r)) ≤ 1 := by
  rw [countP_eq_length_filter]
  have hd := t.distinct.filter (fun r => decide (p r))
  have hm : ∀ r ∈ t.rows.filter (fun r => decide (p r)), r ∈ t.rows ∧ p r := by
    intro r hr
    simpa using hr
  generalize t.rows.filter (fun r => decide (p r)) = rows at hd hm
  match rows, hd, hm with
  | [], _, _ => simp
  | [_], _, _ => simp
  | a :: b :: rest, hd, hm =>
    have ha := hm a (by simp)
    have hb := hm b (by simp)
    exact absurd (h a ha.1 b hb.1 ha.2 hb.2) (rel_of_pairwise_cons hd (by simp))

omit [DecidableEq κ] in
/-- A column whose values clash is a key. -/
theorem eq_of_key (key : ρ → κ) {t : Table ρ check clash} (hc : ∀ a b, key a = key b → clash a b)
    {r r' : ρ} (hr : r ∈ t.rows) (hr' : r' ∈ t.rows) (hk : key r = key r') : r = r' := by
  have hd : t.rows.Pairwise (fun a b => key a ≠ key b) :=
    t.distinct.imp (fun hab he => hab (hc _ _ he))
  have : Std.Symm (fun a b : ρ => key a ≠ key b) := ⟨fun _ _ h => h.symm⟩
  by_contra hne
  exact hd.forall hr hr' hne hk

/-- On a column whose values clash, the looked-up row is the only one. -/
theorem eq_of_lookup {t : Table ρ check clash} (hc : ∀ a b, key a = key b → clash a b) {r r' : ρ}
    (h : lookup key k t.rows = some r) (hr : r' ∈ t.rows) (hk : key r' = k) : r' = r :=
  eq_of_key key hc hr (lookup_some h).1 (hk.trans (lookup_some h).2.symm)

end Selection

end Table

end AiCloud.Lib

namespace AiCloud.Lib.Table
open List

variable {ρ κ M : Type} [DecidableEq κ] [AddCommGroup M]

/-- A total over rows with distinct keys changes by the one row an update reaches. -/
theorem sum_touch {key : ρ → κ} {rows : List ρ}
    (hd : (rows.map key).Nodup) {r : ρ} (hr : r ∈ rows) (f : ρ → ρ) (amount : ρ → M) :
    ((rows.map (touch (fun x => key x = key r) f)).map amount).sum =
      (rows.map amount).sum - amount r + amount (f r) := by
  induction rows with
  | nil => cases hr
  | cons x rest ih =>
    obtain ⟨hx, hd⟩ := nodup_cons.mp hd
    simp only [map_cons, sum_cons]
    rcases mem_cons.mp hr with rfl | hr
    · have hrest : rest.map (touch (fun x => key x = key r) f) = rest :=
        map_touch_eq_self (fun y hy he => hx (he ▸ mem_map_of_mem hy))
      rw [hrest, touch, if_pos rfl]
      abel
    · have hne : key x ≠ key r := fun he => hx (he ▸ mem_map_of_mem hr)
      rw [ih hd hr, touch, if_neg hne]
      abel

end AiCloud.Lib.Table
