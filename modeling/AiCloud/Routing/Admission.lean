import Mathlib.Data.List.Sort
import AiCloud.Routing.Candidates

/-!
# Model admission

`Check` reads the evidence of a model version from the latest record back to the first
one that is approved, restricted or revoked. A rejection is passed over like a record
that decides nothing yet.
-/
namespace AiCloud.Admission

open Execution Routing List

inductive Status
  | collected
  | reviewed
  | approved
  | restricted
  | rejected
  | revoked
  | other (text : String)
  deriving DecidableEq

structure Evidence where
  (id modelID modelVersion : String)
  status : Status
  (licenseID licenseTextRef sourceRef : String)
  (commercialUseAllowed hostedServiceAllowed noticeRequired : Bool)
  (noticeRef artifactDigest artifactSignature securityScanRef reviewer : String)
  reviewedAt : Option Time
  evidenceDigest : String
  createdAt : Time
  deriving DecidableEq

structure Decision extends AdmissionDecision where
  evidenceID : String
  deriving DecidableEq

/-- The records of the map, in the order in which it happens to hand them out. -/
structure MemoryStore where
  records : List Evidence
  distinct : (records.map Evidence.id).Nodup

def ofModel (records : List Evidence) (modelID modelVersion : String) : List Evidence :=
  records.filter (fun e => e.modelID = modelID ∧ e.modelVersion = modelVersion)

def byCreation (a b : Evidence) : Prop := a.createdAt ≤ b.createdAt

instance : DecidableRel byCreation := fun a b =>
  inferInstanceAs (Decidable (a.createdAt ≤ b.createdAt))

instance : Std.Total byCreation := ⟨fun a b => Int.le_total a.createdAt b.createdAt⟩

instance : IsTrans Evidence byCreation := ⟨fun _ _ _ => Int.le_trans⟩

variable (s : MemoryStore)

def MemoryStore.listByModel (modelID modelVersion : String) : List Evidence :=
  (ofModel s.records modelID modelVersion).insertionSort byCreation

def require (value reason : String) : List String := if value = "" then [reason] else []

def validateEvidence (model : RouterModel) (e : Evidence) : List String :=
  require e.licenseID "license identifier is missing" ++
    require e.licenseTextRef "authoritative license text reference is missing" ++
    require e.sourceRef "model source reference is missing" ++
    require e.reviewer "evidence reviewer is missing" ++
    require e.evidenceDigest "evidence digest is missing" ++
    (if e.reviewedAt = none then ["evidence review time is missing"] else []) ++
    (if e.commercialUseAllowed then [] else ["commercial use is not allowed"]) ++
    (if model.deploymentMode = .publicAPI ∨ model.deploymentMode = .enterpriseAPI ∨
        model.deploymentMode = .privateEndpoint then
      if e.hostedServiceAllowed then [] else ["hosted-service use is not allowed"] else []) ++
    (if model.deploymentMode = .selfHosted ∨ model.deploymentMode = .local then
      require e.artifactDigest "self-hosted artifact digest is missing" ++
        require e.artifactSignature "self-hosted artifact signature is missing" ++
        require e.securityScanRef "self-hosted security scan evidence is missing" else []) ++
    (if e.noticeRequired ∧ e.noticeRef = "" then
      ["required attribution or notice evidence is missing"] else [])

/-- The records from the latest back. -/
def scan (model : RouterModel) : List Evidence → Decision
  | [] => ⟨⟨false, ["no approved evidence record exists for the immutable model version"]⟩, ""⟩
  | e :: rest =>
    if e.status = .revoked then ⟨⟨false, ["latest model evidence is revoked"]⟩, e.id⟩
    else if e.status ≠ .approved ∧ e.status ≠ .restricted then scan model rest
    else ⟨⟨validateEvidence model e = [], validateEvidence model e⟩, e.id⟩

/-- Any store may answer with an error. -/
def check (listByModel : String → String → Except ServiceError (List Evidence))
    (model : RouterModel) : Except ServiceError Decision :=
  if model.approvalStatus ≠ .approved then
    .ok ⟨⟨false, ["model approval status is not approved"]⟩, ""⟩
  else (listByModel model.id model.version).map (fun records => scan model records.reverse)

variable {model : RouterModel}

/-- The statuses the scan stops at. -/
def settling : List Status := [.approved, .restricted, .revoked]

/-- The latest record with one of these statuses. -/
def IsLatest (records : List Evidence) (statuses : List Status) (e : Evidence) : Prop :=
  e ∈ records ∧ e.status ∈ statuses ∧
    ∀ e' ∈ records, e'.status ∈ statuses → e'.createdAt ≤ e.createdAt

theorem scan_eq (model : RouterModel) (records : List Evidence) :
    scan model records =
      match records.find? (fun e => e.status ∈ settling) with
      | none => scan model []
      | some e => scan model [e] := by
  induction records with
  | nil => rfl
  | cons e rest ih =>
    rw [find?_cons]
    cases hs : e.status <;> simp [scan, settling, hs, ih]

variable {records : List Evidence} {statuses : List Status}

/-- The record the scan stops at, from the latest back, is the latest of its kind. -/
theorem isLatest_of_find? {e : Evidence}
    (hsorted : records.Pairwise (fun a b => b.createdAt ≤ a.createdAt))
    (hfind : records.find? (fun e => e.status ∈ statuses) = some e) :
    IsLatest records statuses e := by
  obtain ⟨hstatus, before, later, rfl, hbefore⟩ := find?_eq_some_iff_append.mp hfind
  refine ⟨mem_append_right _ mem_cons_self, of_decide_eq_true hstatus, ?_⟩
  intro e' hmem hstatus'
  rcases mem_append.mp hmem with hmem | hmem
  · have hnot := hbefore e' hmem
    simp [hstatus'] at hnot
  · rcases mem_cons.mp hmem with rfl | hmem
    · exact le_rfl
    · exact (pairwise_cons.mp (pairwise_append.mp hsorted).2.1).1 e' hmem

theorem IsLatest.of_mem_iff {records records' : List Evidence}
    {e : Evidence} (hmem : ∀ e, e ∈ records ↔ e ∈ records') (h : IsLatest records statuses e) :
    IsLatest records' statuses e :=
  ⟨(hmem e).mp h.1, h.2.1, fun e' he' => h.2.2 e' ((hmem e').mpr he')⟩

/-- Where no two records were created at one time there is one latest record. -/
theorem IsLatest.unique {e e' : Evidence}
    (hdistinct : (records.map Evidence.createdAt).Nodup) (h : IsLatest records statuses e)
    (h' : IsLatest records statuses e') : e = e' :=
  inj_on_of_nodup_map hdistinct h.1 h'.1 (le_antisymm (h'.2.2 e h.1 h.2.1) (h.2.2 e' h'.1 h'.2.1))

def MemoryStore.check (model : RouterModel) : Except ServiceError Decision :=
  Admission.check (fun id version => .ok (s.listByModel id version)) model

def Allows (model : RouterModel) : Prop :=
  ∃ d, s.check model = .ok d ∧ d.allowed = true

theorem MemoryStore.check_approved (happroved : model.approvalStatus = .approved) :
    s.check model = .ok (scan model (s.listByModel model.id model.version).reverse) := by
  unfold MemoryStore.check Admission.check
  rw [if_neg (not_not_intro happroved)]
  rfl

/-- The model is allowed iff its latest approved, restricted or revoked record is not a
revocation and has every piece of evidence the model needs. -/
theorem allows_iff {s : MemoryStore} (happroved : model.approvalStatus = .approved)
    (hdistinct : ((ofModel s.records model.id model.version).map Evidence.createdAt).Nodup) :
    Allows s model ↔ ∃ e, IsLatest (ofModel s.records model.id model.version) settling e ∧
      e.status ≠ .revoked ∧ validateEvidence model e = [] := by
  have hmem : ∀ e, e ∈ (s.listByModel model.id model.version).reverse ↔
      e ∈ ofModel s.records model.id model.version := by
    intro e
    rw [mem_reverse, MemoryStore.listByModel, mem_insertionSort]
  have hsorted : (s.listByModel model.id model.version).reverse.Pairwise
      (fun a b => b.createdAt ≤ a.createdAt) :=
    pairwise_reverse.mpr (pairwise_insertionSort byCreation _)
  unfold Allows
  rw [s.check_approved happroved, scan_eq]
  cases hfind : (s.listByModel model.id model.version).reverse.find?
      (fun e => e.status ∈ settling) with
  | none =>
    have hnone := find?_eq_none.mp hfind
    constructor
    · rintro ⟨d, hd, hallowed⟩
      cases hd
      cases hallowed
    · rintro ⟨e, hlatest, _⟩
      exact absurd (decide_eq_true hlatest.2.1) (hnone e ((hmem e).mpr hlatest.1))
  | some e =>
    have hlatest := (isLatest_of_find? hsorted hfind).of_mem_iff hmem
    constructor
    · rintro ⟨d, hd, hallowed⟩
      cases hd
      refine ⟨e, hlatest, ?_⟩
      cases hs : e.status <;> simp_all [scan, settling]
    · rintro ⟨e', hlatest', hrevoked, hvalid⟩
      obtain rfl := hlatest.unique hdistinct hlatest'
      refine ⟨_, rfl, ?_⟩
      have hstatus := hlatest.2.1
      cases hs : e.status <;> simp_all [scan, settling]

def decided : List Status := [.approved, .restricted, .rejected, .revoked]

/-- A revocation that is the latest decision is also the latest record the scan stops at. -/
theorem IsLatest.settling_of_revoked {latest : Evidence}
    (h : IsLatest records decided latest) (hrevoked : latest.status = .revoked) :
    IsLatest records settling latest := by
  refine ⟨h.1, by rw [hrevoked]; decide, ?_⟩
  intro e he hstatus
  refine h.2.2 e he ?_
  have hsub : ∀ status ∈ settling, status ∈ decided := by decide
  exact hsub _ hstatus

/-- A revocation keeps the model out. A rejection does so only where the decisions under it
do: the latest approved, restricted or revoked record is a revocation or lacks evidence. -/
theorem adverse_decision_denies_iff (s : MemoryStore) (model : RouterModel)
    (happroved : model.approvalStatus = .approved)
    (hdistinct : ((ofModel s.records model.id model.version).map Evidence.createdAt).Nodup)
    (latest : Evidence)
    (hlatest : IsLatest (ofModel s.records model.id model.version) decided latest)
    (hadverse : latest.status = .rejected ∨ latest.status = .revoked) :
    ¬ Allows s model ↔ latest.status = .revoked ∨ latest.status = .rejected ∧
        ∀ e, IsLatest (ofModel s.records model.id model.version) settling e →
          e.status = .revoked ∨ validateEvidence model e ≠ [] := by
  rw [allows_iff happroved hdistinct]
  constructor
  · intro hnone
    refine hadverse.symm.imp_right (fun hrejected => ⟨hrejected, fun e hsettling => ?_⟩)
    by_contra hvalid
    rw [not_or, not_not] at hvalid
    exact hnone ⟨e, hsettling, hvalid⟩
  · rintro (hrevoked | ⟨_, hall⟩) ⟨e, hsettling, hstands, hvalid⟩
    · obtain rfl := hsettling.unique hdistinct (hlatest.settling_of_revoked hrevoked)
      exact hstands hrevoked
    · exact (hall e hsettling).elim hstands (· hvalid)

def rejectedModel : RouterModel :=
  ModelVersion.legacyModel ⟨"m", "1", .degraded, [], .approved⟩ .publicAPI

def reviewed (id : String) (status : Status) (createdAt : Time) : Evidence :=
  ⟨id, "m", "1", status, "apache-2.0", "license", "source", true, true, false, "", "", "", "",
    "reviewer", some 1, "digest", createdAt⟩

/-- A record of the given status, then a later rejection. -/
def rejectedAfter (status : Status) : MemoryStore :=
  ⟨[reviewed "late" .rejected 2, reviewed "early" status 1], by simp [reviewed]⟩

theorem rejectedAfter_latest (status : Status) :
    IsLatest (ofModel (rejectedAfter status).records "m" "1") decided
      (reviewed "late" .rejected 2) := by
  refine ⟨mem_filter.mpr ⟨mem_cons_self, by decide⟩, by decide, ?_⟩
  intro e he _
  rcases mem_pair.mp (mem_filter.mp he).1 with rfl | rfl
  · exact le_rfl
  · exact (by decide : (1 : Int) ≤ 2)

/-- The rejection is passed over and the approval before it still lets the model in. -/
theorem rejection_passed_over : IsLatest (ofModel (rejectedAfter .approved).records "m" "1") decided
    (reviewed "late" .rejected 2) ∧ Allows (rejectedAfter .approved) rejectedModel :=
  ⟨rejectedAfter_latest _, ⟨⟨⟨true, []⟩, "early"⟩, by decide, rfl⟩⟩

theorem rejection_after_revocation_denies : ¬ Allows (rejectedAfter .revoked) rejectedModel := by
  refine (adverse_decision_denies_iff (rejectedAfter .revoked) rejectedModel rfl (by decide) _
    (rejectedAfter_latest .revoked) (Or.inl rfl)).mpr (Or.inr ⟨rfl, ?_⟩)
  rintro e ⟨hmem, hstatus, -⟩
  left
  rcases mem_pair.mp (mem_filter.mp hmem).1 with rfl | rfl
  · exact absurd hstatus (by decide)
  · rfl

end AiCloud.Admission
