import Mathlib.Data.List.Sort

/-!
# Sorted lists

A search through a sorted list finds the element that comes strictly before all others
that match, in whatever order the list came in. A sorted arrangement of some elements of
a list extends to one of the whole list. With distinct keys there is one sorted arrangement.
-/
namespace AiCloud.Lib
open List

variable {α : Type} {le : α → α → Bool}

theorem find_mergeSort (htrans : ∀ a b c, le a b = true → le b c = true → le a c = true)
    (htotal : ∀ a b, (le a b || le b a) = true) {l : List α} {p : α → Bool} {x : α} (hx : x ∈ l)
    (hp : p x = true) (hleads : ∀ y ∈ l, p y = true → y ≠ x → le y x = false) :
    (l.mergeSort le).find? p = some x := by
  have hsorted : (l.mergeSort le).Pairwise (fun a b => le a b = true) :=
    pairwise_mergeSort htrans htotal l
  cases hfind : (l.mergeSort le).find? p with
  | none =>
    have hnone := find?_eq_none.mp hfind x (mem_mergeSort.mpr hx)
    exact absurd hp hnone
  | some y =>
    -- Whatever was found stands before `x`, so nothing but `x` was.
    obtain ⟨hpy, before, after, hsplit, hbefore⟩ := find?_eq_some_iff_append.mp hfind
    by_contra hne
    have hne' : y ≠ x := fun h => hne (congrArg some h)
    have hmem : x ∈ before ++ y :: after := hsplit ▸ mem_mergeSort.mpr hx
    rcases mem_append.mp hmem with hin | hin
    · have := hbefore x hin
      simp [hp] at this
    rcases mem_cons.mp hin with hxy | hin
    · exact hne' hxy.symm
    rw [hsplit] at hsorted
    have hle := (pairwise_cons.mp (pairwise_append.mp hsorted).2.1).1 x hin
    have hyl : y ∈ l := mem_mergeSort.mp (hsplit ▸ mem_append_right _ mem_cons_self)
    rw [hleads y hyl hpy hne'] at hle
    cases hle

/-- Every sorted arrangement of the elements that pass a test is what the test leaves of
some sorted arrangement of the whole list. -/
theorem exists_sorted_filter (htrans : ∀ a b c, le a b = true → le b c = true → le a c = true)
    (htotal : ∀ a b, (le a b || le b a) = true) {l kept : List α} {p : α → Bool}
    (hperm : kept.Perm (l.filter p)) (hsorted : kept.Pairwise (fun a b => le a b = true)) :
    ∃ l' : List α, l'.Perm l ∧ l'.Pairwise (fun a b => le a b = true) ∧ l'.filter p = kept := by
  have hkept : kept.filter p = kept := by
    rw [filter_eq_self]
    intro x hx
    exact (mem_filter.mp (hperm.mem_iff.mp hx)).2
  let whole := kept ++ l.filter (fun x => !p x)
  have hwhole : whole.Perm l :=
    (hperm.append_right _).trans (filter_append_perm p l)
  have hsort : (whole.mergeSort le).Perm l := (mergeSort_perm whole le).trans hwhole
  -- The sort is stable, so the arrangement survives it as a sublist.
  have hsub : kept.Sublist (whole.mergeSort le) :=
    sublist_mergeSort htrans htotal hsorted (sublist_append_left _ _)
  have hfilter : kept.Sublist ((whole.mergeSort le).filter p) := by
    have := hsub.filter p
    rwa [hkept] at this
  have hlength : kept.length = ((whole.mergeSort le).filter p).length :=
    hperm.length_eq.trans (hsort.filter p).length_eq.symm
  exact ⟨whole.mergeSort le, hsort, pairwise_mergeSort htrans htotal whole,
    (hfilter.eq_of_length hlength).symm⟩

section

variable {β : Type} [LinearOrder β] {key : α → β} {l l' : List α}

/-- In an ascending list, what stands before the first element with a property is what
comes before all of them. -/
theorem mem_takeWhile_ascending {p : α → Prop} [DecidablePred p] {a : α}
    (hsorted : l.Pairwise (fun a b => key a < key b)) :
    a ∈ l.takeWhile (fun x => ¬ p x) ↔ a ∈ l ∧ ∀ b ∈ l, p b → key a < key b := by
  induction l with
  | nil => simp
  | cons x rest ih =>
    obtain ⟨hx, hrest⟩ := pairwise_cons.mp hsorted
    rw [forall_mem_cons, mem_cons, takeWhile_cons]
    by_cases hp : p x
    · simp only [hp, not_true, decide_false, Bool.false_eq_true, if_false, not_mem_nil, false_iff]
      rintro ⟨rfl | ha, hlt, _⟩
      · exact lt_irrefl _ (hlt trivial)
      · exact lt_asymm (hx a ha) (hlt trivial)
    · simp only [hp, not_false_iff, decide_true, if_true, mem_cons, ih hrest]
      constructor
      · rintro (rfl | h)
        · exact ⟨.inl rfl, nofun, fun b hb _ => hx b hb⟩
        · exact ⟨.inr h.1, nofun, h.2⟩
      · rintro ⟨rfl | ha, _, h⟩
        · exact .inl rfl
        · exact .inr ⟨ha, h⟩

theorem pairwise_mergeSort_key (key : α → β) (l : List α) :
    (l.mergeSort (fun a b => decide (key a ≤ key b))).Pairwise (fun a b => key a ≤ key b) := by
  have hsorted : (l.mergeSort (fun a b => decide (key a ≤ key b))).Pairwise
      (fun a b => decide (key a ≤ key b) = true) := by
    refine pairwise_mergeSort ?_ ?_ l
    · intro a b c hab hbc
      exact decide_eq_true (le_trans (of_decide_eq_true hab) (of_decide_eq_true hbc))
    · intro a b
      simpa using le_total (key a) (key b)
  exact hsorted.imp of_decide_eq_true

theorem mergeSort_key_strict (h : (l.map key).Nodup) :
    (l.mergeSort (fun a b => decide (key a ≤ key b))).Pairwise (fun a b => key a < key b) := by
  have hdistinct : (l.mergeSort (fun a b => decide (key a ≤ key b))).Pairwise
      (fun a b => key a ≠ key b) := by
    rw [← pairwise_map]
    exact ((mergeSort_perm l _).map key).nodup_iff.mpr h
  exact ((pairwise_mergeSort_key key l).and hdistinct).imp (fun hab => lt_of_le_of_ne hab.1 hab.2)

theorem mergeSort_key_perm (hperm : l'.Perm l) (h : (l.map key).Nodup) :
    l'.mergeSort (fun a b => decide (key a ≤ key b)) =
      l.mergeSort (fun a b => decide (key a ≤ key b)) := by
  have hleft := mergeSort_key_strict ((hperm.map key).nodup_iff.mpr h)
  have hright := mergeSort_key_strict h
  refine Perm.eq_of_pairwise ?_ hleft hright
    (((mergeSort_perm l' _).trans hperm).trans (mergeSort_perm l _).symm)
  intro a b _ _ hab hba
  exact absurd hab (lt_asymm hba)

end

end AiCloud.Lib
