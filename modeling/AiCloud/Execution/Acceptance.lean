import AiCloud.Lib.Transaction
import AiCloud.Execution.Acyclic

/-!
# Which plans are accepted

Each loop of `ValidatePlan` passes exactly the lists it is meant to pass, and the
cycle search passes exactly the dependencies that have a topological order.
-/
namespace AiCloud.Execution

open Lib List

/-- Keys and retry flags that fit the class of effect. -/
def EffectSpec.Valid (effect : EffectSpec) : Prop :=
  match effect.effectClass with
  | .pure | .readOnly => True
  | .idempotentMutation => effect.idempotencyKey ≠ "" ∧ effect.retrySafe = true
  | .nonIdempotentMutation => effect.retrySafe = false
  | .other _ => False

theorem validateEffectSpec_ok_iff (effect : EffectSpec) :
    validateEffectSpec effect = .ok () ↔ effect.Valid := by
  unfold validateEffectSpec EffectSpec.Valid
  split <;> simp [*]
  split <;> simp [*]

variable {nodes : List ExecutionNode}

theorem validateNodes_ok_iff {seen : List String} : validateNodes seen nodes = .ok () ↔
    (∀ node ∈ nodes, node.id ≠ "" ∧ node.id ∉ seen ∧ node.effect.Valid) ∧
      (nodes.map ExecutionNode.id).Nodup := by
  induction nodes generalizing seen with
  | nil => simp [validateNodes]
  | cons node rest ih =>
    unfold validateNodes
    rw [forall_mem_cons, map_cons, nodup_cons]
    by_cases hid : node.id = ""
    · simp [hid]
    by_cases hseen : node.id ∈ seen
    · simp [hid, hseen]
    rw [if_neg hid, if_neg hseen]
    cases heffect : validateEffectSpec node.effect with
    | error e =>
      have hinvalid : ¬ node.effect.Valid := by
        rw [← validateEffectSpec_ok_iff, heffect]
        simp
      simp [hinvalid]
    | ok u =>
      have hvalid : node.effect.Valid := (validateEffectSpec_ok_iff _).mp heffect
      simp only [ih]
      constructor
      · rintro ⟨hrest, hnodup⟩
        refine ⟨⟨⟨hid, hseen, hvalid⟩, fun other ho => ?_⟩, ?_, hnodup⟩
        · obtain ⟨hne, hnew, hv⟩ := hrest other ho
          exact ⟨hne, fun hin => hnew (mem_cons_of_mem _ hin), hv⟩
        · intro hin
          obtain ⟨other, ho, heq⟩ := mem_map.mp hin
          exact (hrest other ho).2.1 (heq ▸ mem_cons_self)
      · rintro ⟨⟨-, hrest⟩, hfresh, hnodup⟩
        refine ⟨fun other ho => ?_, hnodup⟩
        obtain ⟨hne, hnew, hv⟩ := hrest other ho
        refine ⟨hne, fun hin => ?_, hv⟩
        rcases mem_cons.mp hin with heq | hin
        · exact hfresh (heq ▸ mem_map_of_mem ho)
        · exact hnew hin

theorem validateDependencies_ok_iff {ids : List String} {id : String} {seen deps : List String} :
    validateDependencies ids id seen deps = .ok () ↔
      (∀ dep ∈ deps, dep ≠ id ∧ dep ∈ ids ∧ dep ∉ seen) ∧ deps.Nodup := by
  induction deps generalizing seen with
  | nil => simp [validateDependencies]
  | cons dep rest ih =>
    unfold validateDependencies
    rw [forall_mem_cons, nodup_cons]
    by_cases hself : dep = id
    · simp [hself]
    by_cases hknown : dep ∈ ids
    swap
    · simp [hself, hknown]
    by_cases hseen : dep ∈ seen
    · simp [hself, hknown, hseen]
    rw [if_neg hself, if_neg (not_not.mpr hknown), if_neg hseen, ih]
    constructor
    · rintro ⟨hrest, hnodup⟩
      refine ⟨⟨⟨hself, hknown, hseen⟩, fun other ho => ?_⟩, fun hin => ?_, hnodup⟩
      · obtain ⟨hne, hin, hnew⟩ := hrest other ho
        exact ⟨hne, hin, fun hs => hnew (mem_cons_of_mem _ hs)⟩
      · exact (hrest dep hin).2.2 mem_cons_self
    · rintro ⟨⟨-, hrest⟩, hfresh, hnodup⟩
      refine ⟨fun other ho => ?_, hnodup⟩
      obtain ⟨hne, hin, hnew⟩ := hrest other ho
      refine ⟨hne, hin, fun hs => ?_⟩
      rcases mem_cons.mp hs with rfl | hs
      · exact hfresh ho
      · exact hnew hs

/-- What scheduling needs of a plan. -/
structure WellFormed (nodes : List ExecutionNode) : Prop where
  distinct : (nodes.map ExecutionNode.id).Nodup
  known : ∀ node ∈ nodes, ∀ dep ∈ node.dependsOn, dep ∈ nodes.map ExecutionNode.id
  founded : ∀ node ∈ nodes, Acc (DependencyOf nodes) node.id

/-- With distinct ids the recorded dependencies of a node are its own. -/
theorem dependencies_eq
    (hdistinct : (nodes.map ExecutionNode.id).Nodup) {node : ExecutionNode} (hnode : node ∈ nodes) :
    dependencies nodes node.id = node.dependsOn := by
  unfold dependencies
  split
  · rename_i other hfind
    have hid : other.id = node.id := by simpa using find?_some hfind
    have hmem := mem_reverse.mp (mem_of_find?_eq_some hfind)
    rw [inj_on_of_nodup_map hdistinct hmem hnode hid]
  · rename_i hnone
    have hne := find?_eq_none.mp hnone node (mem_reverse.mpr hnode)
    simp at hne

/-- The ids in an order that puts every node after its dependencies. -/
def TopologicalOrder (nodes : List ExecutionNode) (order : List String) : Prop :=
  order.Perm (nodes.map ExecutionNode.id) ∧
    ∀ node ∈ nodes, ∀ dep ∈ node.dependsOn, order.idxOf dep < order.idxOf node.id

theorem topologicalOrder_iff (hdistinct : (nodes.map ExecutionNode.id).Nodup)
    (hknown : ∀ node ∈ nodes, ∀ dep ∈ node.dependsOn, dep ∈ nodes.map ExecutionNode.id) :
    (∃ order, TopologicalOrder nodes order) ↔ ∀ node ∈ nodes, Acc (DependencyOf nodes) node.id := by
  constructor
  · rintro ⟨order, hperm, hbefore⟩
    have hclosed : ∀ x ∈ order, ∀ y, DependencyOf nodes y x → y ∈ order := by
      intro x hx y hy
      obtain ⟨node, hnode, rfl⟩ := mem_map.mp (hperm.mem_iff.mp hx)
      rw [DependencyOf, dependencies_eq hdistinct hnode] at hy
      exact hperm.mem_iff.mpr (hknown node hnode y hy)
    have htop : Topological (DependencyOf nodes) order := by
      intro x hx y _ hy
      obtain ⟨node, hnode, rfl⟩ := mem_map.mp (hperm.mem_iff.mp hx)
      rw [DependencyOf, dependencies_eq hdistinct hnode] at hy
      exact hbefore node hnode y hy
    intro node hnode
    exact htop.acc hclosed node.id (hperm.mem_iff.mpr (mem_map_of_mem hnode))
  · intro hacc
    obtain ⟨order, hperm, htop⟩ := exists_topological (nodes.map ExecutionNode.id)
      (r := DependencyOf nodes) (by simpa using hacc)
    refine ⟨order, hperm, fun node hnode dep hdep => ?_⟩
    refine htop node.id (hperm.mem_iff.mpr (mem_map_of_mem hnode)) dep
      (hperm.mem_iff.mpr (hknown node hnode dep hdep)) ?_
    rw [DependencyOf, dependencies_eq hdistinct hnode]
    exact hdep

/-- A bounded plan whose nodes form a directed acyclic graph. -/
structure ExecutionPlan.Valid (plan : ExecutionPlan) : Prop where
  id : plan.id ≠ ""
  goalRef : plan.goalRef ≠ ""
  revision : 0 < plan.revision
  nodes : plan.nodes ≠ []
  named : ∀ node ∈ plan.nodes, node.id ≠ ""
  distinct : (plan.nodes.map ExecutionNode.id).Nodup
  effects : ∀ node ∈ plan.nodes, node.effect.Valid
  dependencies : ∀ node ∈ plan.nodes, node.dependsOn.Nodup ∧
    ∀ dep ∈ node.dependsOn, dep ≠ node.id ∧ dep ∈ plan.nodes.map ExecutionNode.id
  ordered : ∃ order, TopologicalOrder plan.nodes order

theorem validatePlan_ok_iff (plan : ExecutionPlan) : validatePlan plan = .ok () ↔ plan.Valid := by
  have hnodes : validateNodes [] plan.nodes = .ok () ↔
      (∀ node ∈ plan.nodes, node.id ≠ "" ∧ node.effect.Valid) ∧
        (plan.nodes.map ExecutionNode.id).Nodup := by
    rw [validateNodes_ok_iff]
    simp
  have hdeps : plan.nodes.forM (fun node => validateDependencies
      (plan.nodes.map ExecutionNode.id) node.id [] node.dependsOn) = .ok () ↔
      ∀ node ∈ plan.nodes, (∀ dep ∈ node.dependsOn, dep ≠ node.id ∧
        dep ∈ plan.nodes.map ExecutionNode.id) ∧ node.dependsOn.Nodup := by
    rw [except_forM_ok]
    simp only [validateDependencies_ok_iff, not_mem_nil, not_false_iff, and_true]
  constructor
  · intro h
    unfold validatePlan at h
    dsimp only at h
    split at h
    · cases h
    rename_i hid
    split at h
    · cases h
    rename_i hgoal
    split at h
    · cases h
    rename_i hrevision
    split at h
    · cases h
    rename_i hne
    obtain ⟨_, hn, h⟩ := except_bind_ok.mp h
    obtain ⟨_, hd, h⟩ := except_bind_ok.mp h
    split at h
    · cases h
    rename_i hcycle
    obtain ⟨hnamed, hdistinct⟩ := hnodes.mp hn
    have hdep := hdeps.mp hd
    have hknown : ∀ node ∈ plan.nodes, ∀ dep ∈ node.dependsOn,
        dep ∈ plan.nodes.map ExecutionNode.id := fun node hnode dep hin =>
      ((hdep node hnode).1 dep hin).2
    have hacc := (hasCycle_iff plan.nodes).mp (eq_false_of_ne_true hcycle)
    exact {
      id := hid
      goalRef := hgoal
      revision := Int.not_le.mp hrevision
      nodes := hne
      named := fun node hnode => (hnamed node hnode).1
      distinct := hdistinct
      effects := fun node hnode => (hnamed node hnode).2
      dependencies := fun node hnode => ⟨(hdep node hnode).2, (hdep node hnode).1⟩
      ordered := (topologicalOrder_iff hdistinct hknown).mpr hacc }
  · intro h
    have hacc := (topologicalOrder_iff h.distinct
      (fun node hnode dep hin => ((h.dependencies node hnode).2 dep hin).2)).mp h.ordered
    have hn := hnodes.mpr ⟨fun node hnode => ⟨h.named node hnode, h.effects node hnode⟩, h.distinct⟩
    have hd := hdeps.mpr (fun node hnode => (h.dependencies node hnode).symm)
    have hcycle := (hasCycle_iff plan.nodes).mpr hacc
    unfold validatePlan
    simp only [if_neg h.id, if_neg h.goalRef, if_neg (Int.not_le.mpr h.revision),
      if_neg h.nodes, hn, hd, hcycle]
    rfl

/-- `ValidatePlan` accepts exactly the valid plans; its cycle search ends, and answers the
same for every order in which the map of dependencies gives its keys. -/
theorem plan_accepted_iff (plan : ExecutionPlan) : (validatePlan plan = .ok () ↔ plan.Valid) ∧
    ∀ order : List String, order.Nodup → (∀ id, id ∈ order ↔ id ∈ plan.nodes.map ExecutionNode.id) →
      ∀ depth, plan.nodes.length + 2 ≤ depth →
        hasCycleWithin plan.nodes depth order = some (hasCycle plan.nodes) :=
  ⟨validatePlan_ok_iff plan, fun _ _ hcover _ hdepth => hasCycleWithin_eq hdepth hcover⟩

theorem wellFormed_of_validatePlan {plan : ExecutionPlan} (h : validatePlan plan = .ok ()) :
    WellFormed plan.nodes := by
  have hvalid := (validatePlan_ok_iff plan).mp h
  have hknown : ∀ node ∈ plan.nodes, ∀ dep ∈ node.dependsOn,
      dep ∈ plan.nodes.map ExecutionNode.id :=
    fun node hnode dep hin => ((hvalid.dependencies node hnode).2 dep hin).2
  exact ⟨hvalid.distinct, hknown, (topologicalOrder_iff hvalid.distinct hknown).mp hvalid.ordered⟩

end AiCloud.Execution
