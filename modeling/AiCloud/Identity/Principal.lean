import AiCloud.Lib.Text

/-!
# Verified principals and project scope

The runtime identity every repository call reads from its context. Texts are
trimmed when the context is read, so a principal that passes `requireProject`
has a nonempty tenant and project.
-/
namespace AiCloud.Identity

open Lib.Text

inductive PrincipalType
  | user
  | serviceAccount
  | system
  | other (text : String)
  deriving DecidableEq

def capabilityTaskSystemAccess : String := "task:system-access"

inductive IdentityError
  | principalRequired
  | tenantRequired
  | projectRequired
  | capabilityRequired (capability : String)
  | invalidPrincipal
  deriving DecidableEq

structure Principal where
  type : PrincipalType
  (subjectID tenantID projectID : String)
  (roles capabilities : List String)
  (authnMethod issuer sessionID purpose : String)
  deriving DecidableEq

/-- Trimmed, without blanks and without repetitions, in order of first use. -/
def normalizeStrings (values : List String) : List String :=
  values.foldl (fun out value =>
    if trimSpace value = "" ∨ trimSpace value ∈ out then out else out ++ [trimSpace value]) []

variable (p : Principal)

def normalize : Principal :=
  { p with
    subjectID := trimSpace p.subjectID
    tenantID := trimSpace p.tenantID
    projectID := trimSpace p.projectID
    authnMethod := trimSpace p.authnMethod
    issuer := trimSpace p.issuer
    sessionID := trimSpace p.sessionID
    purpose := trimSpace p.purpose
    roles := normalizeStrings p.roles
    capabilities := normalizeStrings p.capabilities }

def validate (principal : Principal) : Except IdentityError Unit :=
  let p := normalize principal
  if p.subjectID = "" ∨ p.authnMethod = "" then .error .invalidPrincipal
  else match p.type with
    | .user | .serviceAccount => if p.tenantID = "" then .error .invalidPrincipal else .ok ()
    | .system => if p.purpose = "" then .error .invalidPrincipal else .ok ()
    | .other _ => .error .invalidPrincipal

/-- What a context carries: the principal given to `WithPrincipal`, if any. -/
abbrev Context := Option Principal

variable (ctx : Context)

def principalFromContext : Option Principal :=
  match ctx with
  | none => none
  | some p =>
    match validate (normalize p) with
    | .error _ => none
    | .ok _ => some (normalize p)

def requirePrincipal : Except IdentityError Principal :=
  match principalFromContext ctx with
  | none => .error .principalRequired
  | some p => .ok p

def requireTenant : Except IdentityError Principal :=
  match requirePrincipal ctx with
  | .error e => .error e
  | .ok p => if p.tenantID = "" then .error .tenantRequired else .ok p

def requireProject : Except IdentityError Principal :=
  match requireTenant ctx with
  | .error e => .error e
  | .ok p => if p.projectID = "" then .error .projectRequired else .ok p

def Principal.hasCapability (capability : String) : Prop :=
  trimSpace capability ∈ p.capabilities

instance (capability : String) : Decidable (p.hasCapability capability) :=
  inferInstanceAs (Decidable (_ ∈ _))

def Principal.ownsProject (tenantID projectID : String) : Prop :=
  p.tenantID ≠ "" ∧ p.projectID ≠ "" ∧
    p.tenantID = trimSpace tenantID ∧ p.projectID = trimSpace projectID

instance (tenantID projectID : String) :
    Decidable (p.ownsProject tenantID projectID) :=
  inferInstanceAs (Decidable (_ ∧ _))

/-- The admission test every scoped repository call makes before it opens its
transaction: a project principal, and for system principals the capability. -/
def scopedPrincipal : Except IdentityError Principal :=
  match requireProject ctx with
  | .error e => .error e
  | .ok p =>
    if p.type = .system ∧ ¬ p.hasCapability capabilityTaskSystemAccess then
      .error (.capabilityRequired capabilityTaskSystemAccess)
    else .ok p

/-- A verified principal of one project. -/
structure Principal.InProject : Prop where
  subject : ¬ Blank p.subjectID
  type : p.type = .user ∨ p.type = .serviceAccount ∨ p.type = .system
  tenant : ¬ Blank p.tenantID
  project : ¬ Blank p.projectID
  owns : p.ownsProject p.tenantID p.projectID

variable {p : Principal}

theorem validate_ok {u : Unit} (h : validate p = .ok u) :
    ¬ Blank p.subjectID ∧ (p.type = .user ∨ p.type = .serviceAccount ∨ p.type = .system) := by
  by_cases hs : (normalize p).subjectID = "" ∨ (normalize p).authnMethod = ""
  · rw [show validate p = .error .invalidPrincipal from if_pos hs] at h
    cases h
  · refine ⟨fun hb => hs (.inl hb), ?_⟩
    cases ht : p.type with
    | user => exact .inl rfl
    | serviceAccount => exact .inr (.inl rfl)
    | system => exact .inr (.inr rfl)
    | other text =>
      have htype : (normalize p).type = .other text := ht
      simp only [validate, if_neg hs, htype] at h
      cases h

theorem validate_tenant {u : Unit} (h : validate p = .ok u)
    (htype : p.type = .user ∨ p.type = .serviceAccount) : ¬ Blank p.tenantID := by
  intro hblank
  have htenant : (normalize p).tenantID = "" := hblank
  unfold validate at h
  rcases htype with ht | ht
  · simp only [show (normalize p).type = .user from ht, if_pos htenant] at h
    split at h <;> cases h
  · simp only [show (normalize p).type = .serviceAccount from ht, if_pos htenant] at h
    split at h <;> cases h

variable {ctx : Context}

theorem principalFromContext_some (h : principalFromContext ctx = some p) :
    ∃ p₀, p = normalize p₀ ∧ validate p = .ok () := by
  unfold principalFromContext at h
  split at h
  · cases h
  rename_i p₀
  split at h
  · cases h
  rename_i u hv
  cases h
  exact ⟨p₀, rfl, hv⟩

theorem requireProject_ok (h : requireProject ctx = .ok p) :
    principalFromContext ctx = some p ∧ p.InProject := by
  unfold requireProject requireTenant requirePrincipal at h
  cases hc : principalFromContext ctx with
  | none =>
    rw [hc] at h
    cases h
  | some q =>
    simp only [hc] at h
    by_cases ht : q.tenantID = ""
    · rw [if_pos ht] at h
      cases h
    · simp only [if_neg ht] at h
      by_cases hp : q.projectID = ""
      · rw [if_pos hp] at h
        cases h
      · rw [if_neg hp] at h
        cases h
        obtain ⟨p₀, hn, hv⟩ := principalFromContext_some hc
        have htenant : trimSpace p.tenantID = p.tenantID := by
          rw [hn]
          exact trimSpace_trimSpace _
        have hproject : trimSpace p.projectID = p.projectID := by
          rw [hn]
          exact trimSpace_trimSpace _
        obtain ⟨hsubject, htype⟩ := validate_ok hv
        exact ⟨rfl, hsubject, htype, not_blank_of_trimmed htenant ht,
          not_blank_of_trimmed hproject hp, ht, hp, htenant.symm, hproject.symm⟩

theorem scopedPrincipal_ok (h : scopedPrincipal ctx = .ok p) : requireProject ctx = .ok p := by
  unfold scopedPrincipal at h
  split at h
  · cases h
  split at h
  · cases h
  rename_i q hq _
  cases h
  exact hq

end AiCloud.Identity
