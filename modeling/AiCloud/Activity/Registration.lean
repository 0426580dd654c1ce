import AiCloud.Activity.Route
import AiCloud.Execution.Acceptance
import AiCloud.NodeLease.Refinement

/-!
# Registering the nodes of a validated plan

Plan, repository and table each check a node's effect specification. What the plan
accepts the table accepts too; the repository asks for one thing more, since it trims
an idempotency key before it looks whether the key is empty.
-/
namespace AiCloud.Activity

open Lib Text Execution NodeLease Identity Tx

/-- The execution runs this revision of the plan, and the node is one of its nodes. -/
structure PlanNode (plan : ExecutionPlan) (item : Execution) (node : ExecutionNode) : Prop where
  valid : validatePlan plan = .ok ()
  mem : node ∈ plan.nodes
  execution : item.id ≠ ""
  revision : item.planRef.revision = plan.revision

/-- A mutation whose idempotency key is white space only. -/
def BlankKey (effect : EffectSpec) : Prop :=
  effect.effectClass = .idempotentMutation ∧ Blank effect.idempotencyKey

instance (effect : EffectSpec) : Decidable (BlankKey effect) := inferInstanceAs (Decidable (_ ∧ _))

variable {plan : ExecutionPlan} {item : Execution} {node : ExecutionNode}

namespace PlanNode

theorem effect (h : PlanNode plan item node) : node.effect.Valid :=
  ((validatePlan_ok_iff plan).mp h.valid).effects node h.mem

theorem named (h : PlanNode plan item node) : node.id ≠ "" :=
  ((validatePlan_ok_iff plan).mp h.valid).named node h.mem

theorem revision_positive (h : PlanNode plan item node) : 1 ≤ item.planRef.revision := by
  rw [h.revision]
  exact ((validatePlan_ok_iff plan).mp h.valid).revision

end PlanNode

theorem effect_contracts {effect : EffectSpec} (h : effect.Valid) :
    effect.effectClass ∈ [EffectClass.pure, .readOnly, .idempotentMutation,
      .nonIdempotentMutation] ∧
      (effect.effectClass ≠ .idempotentMutation ∨ present (nullIfEmpty effect.idempotencyKey)) ∧
      (effect.effectClass ≠ .nonIdempotentMutation ∨ effect.retrySafe = false) := by
  unfold EffectSpec.Valid at h
  cases hclass : effect.effectClass with
  | pure => simp
  | readOnly => simp
  | idempotentMutation =>
    rw [hclass] at h
    simp [present, nullIfEmpty, h.1]
  | nonIdempotentMutation =>
    rw [hclass] at h
    simpa using h
  | other text =>
    rw [hclass] at h
    exact h.elim

/-- The row of a validated plan's node meets every constraint of its table. -/
theorem registeredRow_checked (h : PlanNode plan item node) (p : Principal) (now : Time) :
    (registeredRow (recordKey p (newRuntime item node)) (newRuntime item node) now).Check := by
  obtain ⟨hclass, hkey, hretry⟩ := effect_contracts h.effect
  have hattempt : (0 : Int) ≤ 0 ∧ (0 : Int) ≤ integerMax := by decide
  have hfence : (0 : Int) ≤ 0 ∧ (0 : Int) ≤ bigintMax := by decide
  refine ⟨h.revision_positive, hattempt, hfence, ?_, hclass, hkey, hretry, ?_, Or.inl rfl⟩
  · simp [registeredRow, newRuntime]
  · exact Or.inr ⟨by simp [registeredRow, newRuntime], rfl, rfl, rfl, rfl, rfl⟩

theorem validateNodeRuntimeRecord_ok_iff (h : PlanNode plan item node) :
    validateNodeRuntimeRecord (newRuntime item node) = .ok () ↔ ¬ BlankKey node.effect := by
  let record := newRuntime item node
  have hidentity :
      ¬ (record.executionRef = "" ∨ record.planRevision < 1 ∨ record.nodeRef = "") := by
    have hrevision : 1 ≤ record.planRevision := h.revision_positive
    simp only [not_or]
    exact ⟨h.execution, by omega, h.named⟩
  have hstate : ¬ record.state = .other "" := by
    intro hother
    cases hother
  have hretry : ¬ (record.effectClass = .nonIdempotentMutation ∧ record.retrySafe = true) := by
    rintro ⟨hclass, hsafe⟩
    rcases (effect_contracts h.effect).2.2 with hne | hunsafe
    · exact hne hclass
    · exact absurd (hsafe.symm.trans hunsafe) (by decide)
  unfold validateNodeRuntimeRecord
  rw [if_neg hidentity, if_neg hstate, if_neg hretry]
  by_cases hblank : record.effectClass = .idempotentMutation ∧ Blank record.idempotencyKey
  · rw [if_pos hblank]
    exact ⟨fun hok => (by cases hok), absurd hblank⟩
  · rw [if_neg hblank]
    exact ⟨fun _ => hblank, fun _ => rfl⟩

theorem register_ok_iff {ctx : Context} {p : Principal} (hp : scopedPrincipal ctx = .ok p)
    {record : NodeRuntimeRecord} {now : Time} {db : Db} (hnew : db.node (recordKey p record) = none)
    (hchecked : (registeredRow (recordKey p record) record now).Check) :
    (∃ db', register ctx now record db = .ok ((), db')) ↔
      validateNodeRuntimeRecord record = .ok () := by
  have hclash : ∀ row ∈ db.nodes.rows,
      ¬ NodeRow.Clash row (registeredRow (recordKey p record) record now) :=
    Table.lookup_none.mp hnew
  obtain ⟨nodes, hinsert⟩ := Table.insert_fresh hchecked hclash
  have hstatement : insertNodeOrNothing "register execution node runtime"
      (registeredRow (recordKey p record) record now) db =
        .ok (1, { db with nodes := nodes }) := by
    have hsome : ¬ ((registeredRow (recordKey p record) record now).Check ∧
        (db.node (registeredRow (recordKey p record) record now).key).isSome) := by
      rintro ⟨-, hsome⟩
      have hkey : (registeredRow (recordKey p record) record now).key = recordKey p record := rfl
      rw [hkey, hnew] at hsome
      cases hsome
    rw [insertNodeOrNothing, statement_ok, if_neg hsome, hinsert]
    rfl
  constructor
  · rintro ⟨db', hok⟩
    simp only [register, bind_ok, lift_ok] at hok
    obtain ⟨u, _, ⟨hvalid, rfl⟩, -⟩ := hok
    exact hvalid
  · intro hvalid
    refine ⟨{ db with nodes := nodes }, ?_⟩
    simp only [register, bind_ok, lift_ok, failIf_ok, withScopedTx, hp]
    exact ⟨(), db, ⟨hvalid, rfl⟩, p, db, ⟨rfl, rfl⟩, 1, _, hstatement, by simp, rfl⟩

/-- A node of a validated plan passes the repository's and the table's checks, and is
registered where it has no row yet, if and only if its idempotency key, where it needs
one, is more than white space. -/
theorem validated_node_registers_iff (h : PlanNode plan item node) :
    (validateNodeRuntimeRecord (newRuntime item node) = .ok () ∧
        (∀ p now, (registeredRow (recordKey p (newRuntime item node)) (newRuntime item node)
          now).Check) ↔ ¬ BlankKey node.effect) ∧ ∀ ctx p now db, scopedPrincipal ctx = .ok p →
      db.node (recordKey p (newRuntime item node)) = none →
      ((∃ db', register ctx now (newRuntime item node) db = .ok ((), db')) ↔
        ¬ BlankKey node.effect) := by
  constructor
  · rw [validateNodeRuntimeRecord_ok_iff h]
    exact ⟨fun hok => hok.1, fun hkey => ⟨hkey, registeredRow_checked h⟩⟩
  · intro ctx p now db hp hnew
    rw [register_ok_iff hp hnew (registeredRow_checked h p now)]
    exact validateNodeRuntimeRecord_ok_iff h

/-- A plan of one idempotent mutation with the given key. -/
def mutationNode (key : String) : ExecutionNode :=
  ⟨"n", .tool, [], ⟨1, []⟩, ⟨.idempotentMutation, key, true⟩⟩

def mutationPlan (key : String) : ExecutionPlan := ⟨"plan", "goal", 1, 0, [mutationNode key], 3⟩

def mutationExecution : Execution :=
  ⟨"execution", "task", "goal", ⟨"plan", 1⟩, ⟨"u", "t"⟩, .running, 0, 0⟩

theorem keyed_node_registers :
    PlanNode (mutationPlan "key") mutationExecution (mutationNode "key") ∧
      (validateNodeRuntimeRecord (newRuntime mutationExecution (mutationNode "key")) = .ok () ∧
        ∀ p now, (registeredRow (recordKey p (newRuntime mutationExecution (mutationNode "key")))
          (newRuntime mutationExecution (mutationNode "key")) now).Check) := by
  have hnode : PlanNode (mutationPlan "key") mutationExecution (mutationNode "key") :=
    ⟨by decide, by decide, by decide, rfl⟩
  exact ⟨hnode, (validated_node_registers_iff hnode).1.mpr (by decide)⟩

/-- A key of one blank passes the plan's check and is refused at registration. -/
theorem blank_key_not_registered :
    PlanNode (mutationPlan " ") mutationExecution (mutationNode " ") ∧
      validateNodeRuntimeRecord (newRuntime mutationExecution (mutationNode " ")) =
        .error (.invalid "idempotent mutation requires idempotency key") :=
  ⟨⟨by decide, by decide, by decide, rfl⟩, by decide⟩

end AiCloud.Activity
