import Mathlib.Data.List.Chain
import AiCloud.GitOps.Approval

/-!
# Rolling a patch back

The rollback of a plan holds the inverse of each change in the order of the changes, and a
patch replays its changes in order, each against the value it expects. Inverses taken most
recent first lead back; in the order of the plan they do so only for a list that goes back
and forth between two sizes.
-/
namespace AiCloud.GitOps
open List

theorem StepOf.inverse {change : FieldChange} {r m : I32} (h : StepOf change r m)
    (hr : 0 ≤ r.val) : StepOf change.inverse m r :=
  ⟨h.field, h.to_, h.from_, hr⟩

theorem Steps.append {r m n : I32} {first second : List FieldChange} (h : Steps r first m)
    (h' : Steps m second n) : Steps r (first ++ second) n := by
  induction h with
  | nil r => exact h'
  | cons hstep _ ih => exact .cons hstep (ih h')

variable {change : FieldChange} {changes : List FieldChange} {r n : I32}

/-- Most recent first, the inverses of a path lead back to its start. -/
theorem Steps.reverse_inverse (h : Steps r changes n)
    (hr : 0 ≤ r.val) : Steps n (changes.reverse.map FieldChange.inverse) r := by
  induction h with
  | nil r => exact .nil r
  | cons hstep _ ih =>
    rw [reverse_cons, map_append]
    exact (ih hstep.nonneg).append (.cons (hstep.inverse hr) (.nil _))

/-- The next change leads back to where the change came from. -/
def Undoes (change next : FieldChange) : Prop := toInt32 next.to_ = toInt32 change.from_

instance (change next : FieldChange) : Decidable (Undoes change next) :=
  inferInstanceAs (Decidable (_ = _))

def FieldChange.move (change : FieldChange) : Option I32 × Option I32 :=
  (toInt32 change.from_, toInt32 change.to_)

/-- Each change undoes the one before it, and the last makes the move of the first. -/
def Reversible (changes : List FieldChange) : Prop :=
  changes.IsChain Undoes ∧
    changes.getLast?.map FieldChange.move = changes.head?.map FieldChange.move

theorem StepOf.move {r m : I32} (h : StepOf change r m) :
    change.move = (some r, some m) := by
  simp [FieldChange.move, h.from_, h.to_]

theorem StepOf.inverse_iff {r m s e : I32} (h : StepOf change r m)
    (hr : 0 ≤ r.val) : StepOf change.inverse s e ↔ s = m ∧ e = r := by
  constructor
  · intro hinv
    have hs : some s = some m := hinv.from_.symm.trans h.to_
    have he : some e = some r := hinv.to_.symm.trans h.from_
    exact ⟨Option.some.inj hs, Option.some.inj he⟩
  · rintro ⟨rfl, rfl⟩
    exact h.inverse hr

theorem Steps.cons_inverse_iff {r m s e : I32} {rest : List FieldChange}
    (h : StepOf change r m) (hr : 0 ≤ r.val) :
    Steps s (change.inverse :: rest) e ↔ s = m ∧ Steps r rest e := by
  constructor
  · intro hsteps
    cases hsteps with
    | cons hstep hrest =>
      obtain ⟨rfl, rfl⟩ := (h.inverse_iff hr).mp hstep
      exact ⟨rfl, hrest⟩
  · rintro ⟨rfl, hrest⟩
    exact .cons (h.inverse hr) hrest

/-- After the inverse of one change, the inverses of the rest can follow in their own order
exactly when each change undoes the one before; they end where the last change began. -/
theorem Steps.inverse_rest_iff {rest : List FieldChange} {r m n e : I32}
    (hstep : StepOf change r m) (hr : 0 ≤ r.val) (hrest : Steps m rest n) :
    Steps r (rest.map FieldChange.inverse) e ↔ (change :: rest).IsChain Undoes ∧
        (change :: rest).getLast?.map FieldChange.move = some (some e, some n) := by
  induction rest generalizing change r m with
  | nil =>
    cases hrest
    simp only [map_nil, isChain_singleton, true_and, getLast?_singleton,
      Option.map_some, hstep.move, Option.some.injEq, Prod.mk.injEq, and_true]
    constructor
    · intro h
      cases h
      rfl
    · rintro rfl
      exact .nil _
  | cons next rest ih =>
    cases hrest with
    | cons hnext hrest =>
      rename_i m'
      rw [map_cons, Steps.cons_inverse_iff hnext hstep.nonneg,
        ih hnext hstep.nonneg hrest, isChain_cons_cons, getLast?_cons_cons, and_assoc]
      have hundoes : Undoes change next ↔ r = m' := by
        unfold Undoes
        rw [hnext.to_, hstep.from_, Option.some.injEq]
        exact eq_comm
      rw [hundoes]

theorem Steps.getLast_to (h : Steps r changes n) (hlast : changes.getLast? = some change) :
    toInt32 change.to_ = some n := by
  induction h with
  | nil r => cases hlast
  | @cons r m n first rest hstep hrest ih =>
    cases hrest with
    | nil =>
      cases hlast
      exact hstep.to_
    | cons hnext _ =>
      rw [getLast?_cons_cons] at hlast
      exact ih hlast

theorem Steps.rollback_iff (h : Steps r changes n) (hr : 0 ≤ r.val) (hne : changes ≠ []) :
    Steps n (changes.map FieldChange.inverse) r ↔ Reversible changes := by
  cases h with
  | nil => exact absurd rfl hne
  | @cons _ m _ change rest hstep hrest =>
    rw [map_cons, Steps.cons_inverse_iff hstep hr, Steps.inverse_rest_iff hstep hr hrest]
    unfold Reversible
    rw [head?_cons, Option.map_some, hstep.move]
    constructor
    · rintro ⟨rfl, hchain, hlast⟩
      exact ⟨hchain, hlast⟩
    · rintro ⟨hchain, hlast⟩
      obtain ⟨last, hget, hmove⟩ := Option.map_eq_some_iff.mp hlast
      have hend := (Steps.cons hstep hrest).getLast_to hget
      have hto : toInt32 last.to_ = some m := congrArg Prod.snd hmove
      have hnm : n = m := Option.some.inj (hend.symm.trans hto)
      exact ⟨hnm, hchain, by rw [hnm]; exact hlast⟩

variable {cluster : ManagedCluster}

/-- A plan goes back from what it made exactly along a path to the old size. -/
theorem applyManagedClusterPatch_back_iff {plan : ManifestPatchPlan} {back : List FieldChange}
    (hvalid : cluster.Valid) (htargets : Targets plan cluster)
    (hr : cluster.gpuReplicas = some r) (hupdated : (cluster.resized n).Valid) (hne : back ≠ []) :
    applyManagedClusterPatch { plan with changes := back } (cluster.resized n) = .ok cluster ↔
      Steps n back r := by
  rw [applyManagedClusterPatch_ok_iff]
  constructor
  · rintro ⟨-, -, -, r', n', hr', hsteps, hback, -⟩
    rw [gpuReplicas_resized hr, Option.some.injEq] at hr'
    subst hr'
    rw [resized_resized] at hback
    have hsame : some r = some n' := by
      rw [← hr, hback]
      exact gpuReplicas_resized hr n'
    rw [Option.some.inj hsame]
    exact hsteps
  · intro hsteps
    refine ⟨hupdated, htargets, hne, n, r, gpuReplicas_resized hr n, hsteps, ?_, hvalid⟩
    rw [resized_resized, resized_self hr]

theorem gpuReplicas_nonneg {r : I32} (hvalid : cluster.Valid) (hr : cluster.gpuReplicas = some r) :
    0 ≤ r.val := by
  obtain ⟨worker, hworker, rfl⟩ := Option.map_eq_some_iff.mp hr
  exact hvalid.replicas worker (mem_of_find?_eq_some hworker)

/-- Taken most recent first, the rollback of an applied plan restores the cluster. -/
theorem reversed_rollback_restores {toLower : String → String} {p : ChangeProposal}
    {sourcePath outputPath : String} {plan : ManifestPatchPlan} {updated : ManagedCluster}
    (hplan : buildPatchPlan toLower p sourcePath outputPath = .ok plan)
    (hpatch : applyManagedClusterPatch plan cluster = .ok updated) :
    applyManagedClusterPatch { plan with changes := plan.rollback.reverse } updated =
      .ok cluster := by
  obtain ⟨hvalid, htargets, hne, r, n, hr, hsteps, rfl, hupdated⟩ :=
    applyManagedClusterPatch_ok_iff.mp hpatch
  obtain ⟨hchanges, hrollback⟩ := buildPatchPlan_ok hplan
  rw [hchanges] at hsteps hne
  have hback : plan.rollback.reverse ≠ [] := by simpa [hrollback] using hne
  rw [applyManagedClusterPatch_back_iff hvalid htargets hr hupdated hback, hrollback, ← map_reverse]
  exact hsteps.reverse_inverse (gpuReplicas_nonneg hvalid hr)

theorem chained_changes_undone :
    applyManagedClusterPatch { scaleOutPatch [replicaChange 1 2, replicaChange 2 3] with
        changes := (scaleOutPatch [replicaChange 1 2, replicaChange 2 3]).rollback.reverse }
      ((gpuCluster "dev" ⟨1, by decide⟩).resized ⟨3, by decide⟩) =
        .ok (gpuCluster "dev" ⟨1, by decide⟩) :=
  reversed_rollback_restores (scaleOut_built (by decide) (by decide)) (by decide)

/-- The rollback of an applied plan restores the cluster exactly for reversible changes. -/
theorem rollback_restores_iff (toLower : String → String) (p : ChangeProposal)
    (sourcePath outputPath : String) (plan : ManifestPatchPlan) (cluster updated : ManagedCluster)
    (hplan : buildPatchPlan toLower p sourcePath outputPath = .ok plan)
    (hpatch : applyManagedClusterPatch plan cluster = .ok updated) :
    applyManagedClusterPatch { plan with changes := plan.rollback } updated = .ok cluster ↔
      Reversible p.changes := by
  obtain ⟨hvalid, htargets, hne, r, n, hr, hsteps, rfl, hupdated⟩ :=
    applyManagedClusterPatch_ok_iff.mp hpatch
  obtain ⟨hchanges, hrollback⟩ := buildPatchPlan_ok hplan
  rw [hchanges] at hsteps hne
  have hback : plan.rollback ≠ [] := by simpa [hrollback] using hne
  rw [applyManagedClusterPatch_back_iff hvalid htargets hr hupdated hback, hrollback]
  exact hsteps.rollback_iff (gpuReplicas_nonneg hvalid hr) hne

theorem single_change_rolled_back :
    applyManagedClusterPatch { scaleOutPatch [replicaChange 3 6] with
        changes := (scaleOutPatch [replicaChange 3 6]).rollback }
      ((gpuCluster "dev" ⟨3, by decide⟩).resized ⟨6, by decide⟩) =
        .ok (gpuCluster "dev" ⟨3, by decide⟩) :=
  (rollback_restores_iff asciiLower
    ((scaleOutProposal "dev" [replicaChange 3 6]).applyPolicyResult devPass)
    "cluster.yaml" "" (scaleOutPatch [replicaChange 3 6]) _ _
    (scaleOut_built (by decide) (by decide)) (by decide)).mpr ⟨.singleton _, rfl⟩

/-- One worker is taken to two and then three; the rollback first expects two. -/
theorem chained_changes_not_rolled_back :
    buildPatchPlan asciiLower ((scaleOutProposal "dev" [replicaChange 1 2,
        replicaChange 2 3]).applyPolicyResult devPass) "cluster.yaml" "" =
        .ok (scaleOutPatch [replicaChange 1 2, replicaChange 2 3]) ∧
      applyManagedClusterPatch (scaleOutPatch [replicaChange 1 2, replicaChange 2 3])
          (gpuCluster "dev" ⟨1, by decide⟩) =
        .ok ((gpuCluster "dev" ⟨1, by decide⟩).resized ⟨3, by decide⟩) ∧
      applyManagedClusterPatch { scaleOutPatch [replicaChange 1 2, replicaChange 2 3] with
          changes := (scaleOutPatch [replicaChange 1 2, replicaChange 2 3]).rollback }
          ((gpuCluster "dev" ⟨1, by decide⟩).resized ⟨3, by decide⟩) =
        patchError "CurrentValueMismatch" "expected current replicas 2, got 3" := by
  refine ⟨scaleOut_built (by decide) (by decide), ?_⟩
  decide

end AiCloud.GitOps
