import AiCloud.Lib.UnixTime
import AiCloud.Lib.Text
import AiCloud.Lib.Path
import AiCloud.Lib.Transaction

/-!
# Managed clusters

The `ManagedCluster` manifest and the static checks of the infrastructure API.
-/
namespace AiCloud.GitOps

/-- The values of an `int32`. -/
abbrev I32 := { v : Int // -2147483648 ≤ v ∧ v ≤ 2147483647 }

/-- A string map, by its entries. -/
abbrev StringMap := List (String × String)

structure LocalObjectReference where
  (kind name : String)
  deriving DecidableEq

structure OwnerReference where
  (apiVersion kind name : String)
  deriving DecidableEq

structure ObjectMeta where
  (name namespaceName : String)
  (labels annotations : StringMap)
  generation : Int
  finalizers : List String
  ownerReferences : List OwnerReference
  deriving DecidableEq

structure WorkerGroupSpec where
  name : String
  replicas : I32
  machineClassRef : LocalObjectReference
  labels : StringMap
  deriving DecidableEq

structure ManagedClusterSpec where
  environment : String
  providerRef : LocalObjectReference
  workers : List WorkerGroupSpec
  deriving DecidableEq

structure Condition where
  (type status : String)
  observedGeneration : Int
  (reason message : String)
  deriving DecidableEq

structure ManagedClusterStatus where
  observedGeneration : Int
  phase : String
  workerReadyReplicas : I32
  conditions : List Condition
  deriving DecidableEq

structure ManagedCluster where
  (apiVersion kind : String)
  metadata : ObjectMeta
  spec : ManagedClusterSpec
  status : ManagedClusterStatus
  deriving DecidableEq

def kindManagedCluster : String := "ManagedCluster"

structure ValidationError where
  (field message : String)
  deriving DecidableEq

def failsWhen (c : Prop) [Decidable c] (field message : String) : List ValidationError :=
  if c then [⟨field, message⟩] else []

/-- The loop over the worker groups, with the index of the first and the names seen. -/
def validateWorkers : Nat → List String → List WorkerGroupSpec → List ValidationError
  | _, _, [] => []
  | i, seen, worker :: rest =>
    let fieldPrefix := "spec.workers[" ++ toString i ++ "]"
    failsWhen (worker.name = "") (fieldPrefix ++ ".name") "worker group name is required" ++
      failsWhen (worker.name ≠ "" ∧ worker.name ∈ seen) (fieldPrefix ++ ".name")
        "worker group name must be unique" ++
      failsWhen (worker.replicas.val < 0) (fieldPrefix ++ ".replicas") "replicas must be >= 0" ++
      failsWhen (worker.machineClassRef.name = "") (fieldPrefix ++ ".machineClassRef.name")
        "machineClassRef.name is required" ++ validateWorkers (i + 1) (worker.name :: seen) rest

variable (cluster : ManagedCluster)

/-- The errors of `ValidateManagedCluster`; an empty list is no error. -/
def validateManagedCluster : List ValidationError :=
  failsWhen (cluster.kind ≠ "" ∧ cluster.kind ≠ kindManagedCluster) "kind"
      "kind must be ManagedCluster" ++
    failsWhen (cluster.metadata.name = "") "metadata.name" "metadata.name is required" ++
    failsWhen (cluster.spec.environment = "") "spec.environment" "spec.environment is required" ++
    validateWorkers 0 [] cluster.spec.workers

def ManagedCluster.Valid : Prop := validateManagedCluster cluster = []

instance : Decidable cluster.Valid := inferInstanceAs (Decidable (_ = _))

theorem failsWhen_eq_nil {c : Prop} [Decidable c] {field message : String} :
    failsWhen c field message = [] ↔ ¬ c := by
  unfold failsWhen
  split <;> simp_all

theorem validateWorkers_replicas {i : Nat} {seen : List String} {workers : List WorkerGroupSpec}
    (h : validateWorkers i seen workers = []) : ∀ worker ∈ workers, 0 ≤ worker.replicas.val := by
  induction workers generalizing i seen with
  | nil => simp
  | cons worker rest ih =>
    simp only [validateWorkers, List.append_eq_nil_iff, failsWhen_eq_nil] at h
    intro w hw
    rcases List.mem_cons.mp hw with rfl | hin
    · exact Int.not_lt.mp h.1.1.2
    · exact ih h.2 w hin

/-- No worker group of a valid cluster has a negative size. -/
theorem ManagedCluster.Valid.replicas {cluster : ManagedCluster} (h : cluster.Valid) :
    ∀ worker ∈ cluster.spec.workers, 0 ≤ worker.replicas.val := by
  unfold ManagedCluster.Valid validateManagedCluster at h
  exact validateWorkers_replicas (List.append_eq_nil_iff.mp h).2

end AiCloud.GitOps
