import Mathlib.Data.List.Perm.Subperm
import AiCloud.Lib.Search
import AiCloud.Execution.Plan

/-!
# The cycle search decides whether the dependencies are well founded

A visit that finds nothing marks an id done only after all its dependencies, so
the done ids are accessible. A visit that finds something met an id that is still
being visited, which depends on itself; the ids being visited are distinct nodes,
so the bound on the depth is never what ends the search.
-/
namespace AiCloud.Execution

open Lib List

variable (nodes : List ExecutionNode)

def DependencyOf (dep id : String) : Prop :=
  dep ∈ dependencies nodes id

/-- The marks after visits, in turn, that found nothing. -/
structure Swept (state state' : String → Mark) : Prop where
  grows : ∀ x, state x = .done → state' x = .done
  visiting : ∀ x, state' x = .visiting ↔ state x = .visiting
  sound : (∀ x, state x = .done → Acc (DependencyOf nodes) x) →
    ∀ x, state' x = .done → Acc (DependencyOf nodes) x

/-- The marks after a visit of `id` that found nothing. -/
structure Visited (id : String) (state state' : String → Mark) : Prop
    extends Swept nodes state state' where
  done : state' id = .done

theorem Visited.after {nodes : List ExecutionNode} {id : String}
    {first state state' : String → Mark} (h : Visited nodes id state state')
    (hs : Swept nodes first state) : Swept nodes first state' :=
  ⟨fun x hx => h.grows x (hs.grows x hx), fun x => (h.visiting x).trans (hs.visiting x),
    fun ha => h.sound (hs.sound ha)⟩

variable {id : String} {α : Type}

theorem search_swept {nodes : List ExecutionNode} (key : α → String)
    {f : α → (String → Mark) → Bool × (String → Mark)}
    (hf : ∀ x t, (f x t).1 = false → Visited nodes (key x) t (f x t).2) {xs : List α}
    {state : String → Mark} (h : (searchList f xs (false, state)).1 = false) :
    Swept nodes state (searchList f xs (false, state)).2 ∧
      ∀ x ∈ xs, (searchList f xs (false, state)).2 (key x) = .done := by
  have hall := searchList_false f (I := Swept nodes state) (P := fun x t => t (key x) = .done)
    ⟨fun _ hx => hx, fun _ => Iff.rfl, fun ha => ha⟩ ?_ h
  · exact ⟨hall.1, hall.2.1⟩
  · intro x t _ hs hx
    have hv := hf x t hx
    exact ⟨hv.after hs, hv.done, fun y => hv.grows _⟩

variable {nodes : List ExecutionNode} {depth : Nat} {state : String → Mark}

theorem visit_unseen (h : state id = .unseen) :
    visit nodes (depth + 1) id state =
      let visited := searchList (visit nodes depth) (dependencies nodes id)
        (false, setMark state id .visiting)
      if visited.1 then visited else (false, setMark visited.2 id .done) := by
  rw [visit, h]
  rfl

/-- An unseen id whose dependencies were swept is done, and accessible if they are. -/
theorem Swept.finish {state state' : String → Mark}
    (h : Swept nodes (setMark state id .visiting) state') (hm : state id = .unseen)
    (hdeps : ∀ dep ∈ dependencies nodes id, state' dep = .done) :
    Visited nodes id state (setMark state' id .done) := by
  have hold : ∀ x, x ≠ id → setMark state id .visiting x = state x := fun x hx => if_neg hx
  have hnew : ∀ x, x ≠ id → setMark state' id .done x = state' x := fun x hx => if_neg hx
  have hid : setMark state' id .done id = .done := if_pos rfl
  refine ⟨⟨?_, ?_, ?_⟩, hid⟩
  · intro x hx
    by_cases he : x = id
    · rw [he, hid]
    · rw [hnew x he]
      exact h.grows x ((hold x he).trans hx)
  · intro x
    by_cases he : x = id
    · rw [he, hid, hm]
      simp
    · rw [hnew x he, h.visiting x, hold x he]
  · intro hacc x hx
    have hacc' : ∀ y, setMark state id .visiting y = .done → Acc (DependencyOf nodes) y := by
      intro y hy
      by_cases he : y = id
      · rw [he, setMark, if_pos rfl] at hy
        cases hy
      · exact hacc y ((hold y he).symm.trans hy)
    by_cases he : x = id
    · rw [he]
      exact Acc.intro id (fun dep hdep => h.sound hacc' dep (hdeps dep hdep))
    · exact h.sound hacc' x ((hnew x he).symm.trans hx)

theorem visit_false (h : (visit nodes depth id state).1 = false) :
    Visited nodes id state (visit nodes depth id state).2 := by
  induction depth generalizing id state with
  | zero => cases h
  | succ depth ih =>
    cases hm : state id with
    | visiting => simp [visit, hm] at h
    | done =>
      have heq : visit nodes (depth + 1) id state = (false, state) := by simp [visit, hm]
      rw [heq]
      exact ⟨⟨fun _ hx => hx, fun _ => Iff.rfl, fun hs => hs⟩, hm⟩
    | unseen =>
      rw [visit_unseen hm] at h ⊢
      simp only at h ⊢
      split at h
      · rename_i hfound
        rw [hfound] at h
        cases h
      · rename_i hnone
        rw [if_neg hnone]
        obtain ⟨hswept, hdeps⟩ :=
          search_swept (fun dep => dep) (fun _ _ => ih) (eq_false_of_ne_true hnone)
        exact hswept.finish hm hdeps

/-- Where the search finds nothing, the ids it started from are accessible. -/
theorem acc_of_search (key : α → String)
    {starts : List α} (h : (searchList (fun x => visit nodes depth (key x)) starts
      (false, fun _ => .unseen)).1 = false) : ∀ x ∈ starts, Acc (DependencyOf nodes) (key x) := by
  obtain ⟨hswept, hdone⟩ := search_swept key (fun _ _ => visit_false) h
  intro x hx
  exact hswept.sound (fun _ hx => by cases hx) (key x) (hdone x hx)

theorem mem_of_dependency {dep id : String}
    (h : DependencyOf nodes dep id) : id ∈ nodes.map ExecutionNode.id := by
  unfold DependencyOf dependencies at h
  split at h
  · rename_i node hfind
    have hid := find?_some hfind
    have hmem := mem_of_find?_eq_some hfind
    exact mem_map.mpr ⟨node, mem_reverse.mp hmem, by simpa using hid⟩
  · cases h

/-- The ids being visited when `id` is: distinct nodes that depend on it. -/
structure Visiting (nodes : List ExecutionNode) (state : String → Mark) (path : List String)
    (id : String) : Prop where
  marked : ∀ x, state x = .visiting ↔ x ∈ path
  distinct : path.Nodup
  known : ∀ x ∈ path, x ∈ nodes.map ExecutionNode.id
  below : ∀ x ∈ path, Relation.TransGen (DependencyOf nodes) id x

variable {path : List String}

theorem Visiting.length_le (h : Visiting nodes state path id) : path.length ≤ nodes.length := by
  have hsub := (subperm_of_subset h.distinct h.known).length_le
  rwa [length_map] at hsub

theorem Visiting.descend {state state' : String → Mark} {id dep : String}
    (h : Visiting nodes state path id) (hm : state id = .unseen) (hdep : DependencyOf nodes dep id)
    (hs : ∀ x, state' x = .visiting ↔ setMark state id .visiting x = .visiting) :
    Visiting nodes state' (id :: path) dep := by
  have hnew : id ∉ path := by
    intro hin
    rw [(h.marked id).mpr hin] at hm
    cases hm
  refine ⟨?_, nodup_cons.mpr ⟨hnew, h.distinct⟩, ?_, ?_⟩
  · intro x
    rw [hs x, mem_cons, ← h.marked x]
    unfold setMark
    by_cases he : x = id <;> simp [he]
  · intro x hx
    rcases mem_cons.mp hx with rfl | hx
    · exact mem_of_dependency hdep
    · exact h.known x hx
  · intro x hx
    rcases mem_cons.mp hx with rfl | hx
    · exact .single hdep
    · exact .head hdep (h.below x hx)

theorem visit_true (hp : Visiting nodes state path id)
    (hdepth : nodes.length + 2 ≤ depth + path.length) (h : (visit nodes depth id state).1 = true) :
    ∃ x, Relation.TransGen (DependencyOf nodes) x x := by
  induction depth generalizing id state path with
  | zero =>
    have := hp.length_le
    omega
  | succ depth ih =>
    cases hm : state id with
    | visiting => exact ⟨id, hp.below id ((hp.marked id).mp hm)⟩
    | done => simp [visit, hm] at h
    | unseen =>
      rw [visit_unseen hm] at h
      simp only at h
      split at h
      · rename_i hfound
        obtain ⟨dep, hdep, t, ht, hvisit⟩ := searchList_true (visit nodes depth)
          (I := fun t => ∀ x, t x = .visiting ↔ setMark state id .visiting x = .visiting)
          (fun _ => Iff.rfl)
          (fun y t _ ht hf x => ((visit_false hf).visiting x).trans (ht x)) hfound
        have hpath := hp.descend hm hdep ht
        exact ih hpath (by simp only [length_cons]; omega) hvisit
      · cases h

theorem visiting_nothing (h : ∀ x, state x ≠ .visiting) : Visiting nodes state [] id := by
  constructor <;> simp [h]

theorem cycle_of_search (hdepth : nodes.length + 2 ≤ depth) (key : α → String) {starts : List α}
    (h : (searchList (fun x => visit nodes depth (key x)) starts (false, fun _ => .unseen)).1 =
      true) : ∃ x, Relation.TransGen (DependencyOf nodes) x x := by
  obtain ⟨x, _, t, ht, hvisit⟩ := searchList_true _ (I := fun t => ∀ x, t x ≠ .visiting)
    (fun _ => by simp) (fun y t _ ht hf x hx => ht x (((visit_false hf).visiting x).mp hx)) h
  exact visit_true (visiting_nothing ht) (by simpa using hdepth) hvisit

theorem not_cyclic {x : String} (h : Acc (DependencyOf nodes) x) :
    ¬ Relation.TransGen (DependencyOf nodes) x x := by
  have htrans := h.transGen
  clear h
  induction htrans with
  | intro x _ ih => exact fun hx => ih x hx hx

/-- From starts that cover the nodes, the search finds nothing exactly where the
dependencies are well founded. -/
theorem search_iff (hdepth : nodes.length + 2 ≤ depth) (key : α → String) (starts : List α)
    (hcover : ∀ id, id ∈ starts.map key ↔ id ∈ nodes.map ExecutionNode.id) :
    (searchList (fun x => visit nodes depth (key x)) starts (false, fun _ => .unseen)).1 = false ↔
      ∀ node ∈ nodes, Acc (DependencyOf nodes) node.id := by
  constructor
  · intro h node hnode
    obtain ⟨x, hx, hkey⟩ := mem_map.mp ((hcover node.id).mpr (mem_map_of_mem hnode))
    rw [← hkey]
    exact acc_of_search key h x hx
  · intro hacc
    refine eq_false_of_ne_true (fun h => ?_)
    obtain ⟨x, hx⟩ := cycle_of_search hdepth key h
    obtain ⟨dep, _, hdep⟩ := Relation.TransGen.tail'_iff.mp hx
    obtain ⟨node, hnode, rfl⟩ := mem_map.mp (mem_of_dependency hdep)
    exact not_cyclic (hacc node hnode) hx

theorem hasCycle_iff (nodes : List ExecutionNode) :
    hasCycle nodes = false ↔ ∀ node ∈ nodes, Acc (DependencyOf nodes) node.id :=
  search_iff (Nat.le_refl _) ExecutionNode.id nodes (fun _ => Iff.rfl)

/-- The visit with the recursion of the source: out of depth there is no answer. -/
def visitWithin (nodes : List ExecutionNode) : Nat → String → (String → Mark) →
    Option (Bool × (String → Mark))
  | 0, _, _ => none
  | depth + 1, id, state =>
    match state id with
    | .visiting => some (true, state)
    | .done => some (false, state)
    | .unseen =>
      ((dependencies nodes id).foldlM (fun (found : Bool × (String → Mark)) dep =>
          if found.1 then some found else visitWithin nodes depth dep found.2)
        (false, setMark state id .visiting)).map
        (fun visited => if visited.1 then visited else (false, setMark visited.2 id .done))

/-- The loop of `hasCycle` over the keys of its map, in the order the map gives them. -/
def hasCycleWithin (nodes : List ExecutionNode) (depth : Nat) (order : List String) : Option Bool :=
  (order.foldlM (fun (found : Bool × (String → Mark)) id =>
    if found.1 then some found
    else if found.2 id = .unseen then visitWithin nodes depth id found.2 else some (false, found.2))
    (false, fun _ => .unseen)).map Prod.fst

theorem visitWithin_eq (hp : Visiting nodes state path id)
    (hdepth : nodes.length + 2 ≤ depth + path.length) :
    visitWithin nodes depth id state = some (visit nodes depth id state) := by
  induction depth generalizing id state path with
  | zero =>
    have := hp.length_le
    omega
  | succ depth ih =>
    cases hm : state id with
    | visiting => simp [visitWithin, visit, hm]
    | done => simp [visitWithin, visit, hm]
    | unseen =>
      -- while the dependencies are visited, the same ids stay marked as visiting
      have hdeps := searchList_within (visit nodes depth) (visitWithin nodes depth)
        (dependencies nodes id)
        (I := fun t => ∀ x, t x = .visiting ↔ setMark state id .visiting x = .visiting)
        (fun _ => Iff.rfl) (fun _ t _ ht hf x => ((visit_false hf).visiting x).trans (ht x))
        (fun dep t hdep ht => ih (hp.descend hm hdep ht) (by simp only [length_cons]; omega))
      rw [visit_unseen hm, visitWithin, hm]
      simp only [hdeps, Option.map_some]

/-- The search ends and answers the same from every order of the ids. -/
theorem hasCycleWithin_eq {order : List String} (hdepth : nodes.length + 2 ≤ depth)
    (hcover : ∀ id, id ∈ order ↔ id ∈ nodes.map ExecutionNode.id) :
    hasCycleWithin nodes depth order = some (hasCycle nodes) := by
  have hsame : (searchList (visit nodes depth) order (false, fun _ => .unseen)).1 =
      hasCycle nodes := by
    have horder := search_iff hdepth (fun id => id) order (by simpa using hcover)
    have hnodes := hasCycle_iff nodes
    rw [← hnodes] at horder
    exact Bool.eq_iff_iff.mpr (by simpa using not_congr horder)
  have hrun := searchList_within (visit nodes depth)
    (fun id t => if t id = .unseen then visitWithin nodes depth id t else some (false, t)) order
    (I := fun t => ∀ x, t x ≠ .visiting) (s := fun _ => .unseen) (by simp)
    (fun y t _ ht hf x hx => ht x (((visit_false hf).visiting x).mp hx)) ?_
  · unfold hasCycleWithin
    rw [hrun, Option.map_some, hsame]
  · intro id t _ ht
    by_cases hunseen : t id = .unseen
    · rw [if_pos hunseen]
      exact visitWithin_eq (visiting_nothing ht) (by simpa using hdepth)
    · have hdone : t id = .done := by
        cases hm : t id with
        | unseen => exact absurd hm hunseen
        | visiting => exact absurd hm (ht id)
        | done => rfl
      obtain ⟨d, rfl⟩ : ∃ d, depth = d + 1 := ⟨depth - 1, by omega⟩
      simp [visit, hdone]

end AiCloud.Execution
