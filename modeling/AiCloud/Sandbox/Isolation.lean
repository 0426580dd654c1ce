import AiCloud.Lib.Path
import Mathlib.Data.List.Infix
import AiCloud.Lib.Numbers

/-!
# The sandbox planner

`validate` says which tool runs a sandbox accepts and `Planner.Plan` what becomes of an
accepted one. Durations are nanoseconds. Go's Unicode tables are a parameter. Names made
by `dnsName` keep the first forty characters of the id's words, and the test of a
workspace path compares characters.
-/
namespace AiCloud.Sandbox

open Lib List

inductive NetworkMode
  | unset
  | denyAll
  | allowList
  | other (text : String)
  deriving DecidableEq

structure Limits where
  (cpu memory : String)
  timeout : Int
  networkMode : NetworkMode
  allowedHosts : List String
  readOnlyRootFS : Bool
  workspacePath : String
  workspaceWrite : Bool

structure Request where
  (taskID traceID toolID image : String)
  command : List String
  environment : List (String × String)
  credentialLeaseID : String
  limits : Limits

/-- Upper and lower case as Go's `unicode` package maps a character. -/
structure Casing where
  (upper lower : Char → Char)

inductive SandboxError
  | invalid
  | timeout
  | resources
  | networkMode
  | allowedHosts
  | workspace
  | environment
  deriving DecidableEq

def SandboxError.text : SandboxError → String
  | .invalid => "invalid sandbox request"
  | .timeout => "invalid sandbox request: timeout must be between 1 second and 1 hour"
  | .resources => "invalid sandbox request: CPU and memory limits are required"
  | .networkMode => "invalid sandbox request: unsupported network mode"
  | .allowedHosts => "invalid sandbox request: allow-list network mode requires allowed hosts"
  | .workspace => "invalid sandbox request: workspace must remain under /workspace"
  | .environment => "invalid sandbox request: raw secret-like environment variables are prohibited"

def hour : Int := 3600000000000

/-- `strings.Contains`. -/
def contains (word s : List Char) : Bool := decide (word <:+: s)

variable (casing : Casing)

/-- An environment variable may not look like a secret. -/
def secretLike (key : String) : Bool :=
  let upper := key.toList.map casing.upper
  contains "SECRET".toList upper || contains "TOKEN".toList upper ||
    contains "PASSWORD".toList upper || contains "KEY".toList upper

/-- The test of a workspace path after `filepath.Clean`. -/
def workspaceAllowed (path : String) : Bool :=
  let clean := Path.clean path.toList
  "/workspace".toList.isPrefixOf clean && !contains "..".toList clean

def validate (request : Request) : Except SandboxError Unit :=
  if request.taskID = "" ∨ request.traceID = "" ∨ request.toolID = "" ∨ request.image = "" ∨
      request.command = [] then .error .invalid
  else if request.limits.timeout ≤ 0 ∨ hour < request.limits.timeout then .error .timeout
  else if request.limits.cpu = "" ∨ request.limits.memory = "" then .error .resources
  else
    -- An unset mode denies all traffic.
    let mode := if request.limits.networkMode = .unset then .denyAll else request.limits.networkMode
    if mode ≠ .denyAll ∧ mode ≠ .allowList then .error .networkMode
    else if mode = .allowList ∧ request.limits.allowedHosts = [] then .error .allowedHosts
    else if request.limits.workspacePath ≠ "" ∧
        workspaceAllowed request.limits.workspacePath = false then .error .workspace
    else if request.environment.any (fun entry => secretLike casing entry.1) then
      .error .environment
    else .ok ()

/-- Runs of other characters become one hyphen; `dashed` says that one was just written. -/
def dashRuns (keep : Char → Bool) : Bool → List Char → List Char
  | _, [] => []
  | dashed, c :: cs =>
    if keep c then c :: dashRuns keep false cs
    else if dashed then dashRuns keep true cs
    else '-' :: dashRuns keep true cs

def dnsCharacter (c : Char) : Bool :=
  ('a' ≤ c && c ≤ 'z') || ('0' ≤ c && c ≤ '9') || c == '-'

def dnsName (value : String) : String :=
  let name := (Path.trim '-' (dashRuns dnsCharacter false (value.toList.map casing.lower))).take 40
  if name = [] then "task" else String.ofList name

/-- The parts of the job and of the network policy that depend on the request. -/
structure Plan where
  (namespaceName serviceAccount jobName : String)
  deadlineSeconds : Int
  (taskLabel toolLabel image : String)
  command : List String
  environment : List (String × String)
  readOnlyRootFS : Bool
  (cpu memory : String)
  egressProxy : Bool

def Planner.plan (request : Request) : Except SandboxError Plan :=
  match validate casing request with
  | .error e => .error e
  | .ok _ =>
    let name := dnsName casing request.taskID
    .ok
      { namespaceName := "aicloud-task-" ++ name
        serviceAccount := "sandbox-" ++ name
        jobName := "tool-" ++ name
        deadlineSeconds := request.limits.timeout.tdiv 1000000000
        taskLabel := request.taskID
        toolLabel := request.toolID
        image := request.image
        command := request.command
        environment := request.environment
        readOnlyRootFS := request.limits.readOnlyRootFS
        cpu := request.limits.cpu
        memory := request.limits.memory
        egressProxy := request.limits.networkMode = .allowList }

/-- The longest pieces of characters that may stand in a name. -/
def dnsWords (keep : Char → Bool) (cs : List Char) : List (List Char) :=
  (cs.splitOnP (fun c => !keep c)).filter (· ≠ [])

variable (id : String)

/-- The words of the lower-cased id joined by hyphens, without hyphens at the ends. -/
def canonicalText : List Char :=
  Path.trim '-' (['-'].intercalate (dnsWords dnsCharacter (id.toList.map casing.lower)))

/-- The first forty characters of that; an id without any is called `task`. -/
def canonicalName : String :=
  let name := (canonicalText casing id).take 40
  if name = [] then "task" else String.ofList name

/-- Pieces joined like `dashRuns` does it: no hyphen after an empty piece that follows one. -/
def joinPieces : Bool → List (List Char) → List Char
  | _, [] => []
  | _, [piece] => piece
  | dashed, piece :: next :: rest =>
    if piece = [] ∧ dashed = true then joinPieces true (next :: rest)
    else piece ++ '-' :: joinPieces true (next :: rest)

theorem joinPieces_cons_char (dashed : Bool) (c : Char) (piece : List Char)
    (rest : List (List Char)) :
    joinPieces dashed ((c :: piece) :: rest) = c :: joinPieces false (piece :: rest) := by
  cases rest with
  | nil => rfl
  | cons next rest => simp [joinPieces]

theorem dashRuns_eq (keep : Char → Bool) (dashed : Bool) (cs : List Char) :
    dashRuns keep dashed cs = joinPieces dashed (cs.splitOnP (fun c => !keep c)) := by
  induction cs generalizing dashed with
  | nil => rfl
  | cons c cs ih =>
    obtain ⟨piece, rest, hsplit⟩ :=
      exists_cons_of_ne_nil (splitOnP_ne_nil (fun c => !keep c) cs)
    have ihs := fun dashed => (ih dashed).trans (congrArg (joinPieces dashed) hsplit)
    rw [splitOnP_cons_eq_if_modifyHead, hsplit, dashRuns]
    cases hkeep : keep c with
    | true =>
      simp only [if_true, Bool.not_true, Bool.false_eq_true, if_false, modifyHead_cons]
      rw [joinPieces_cons_char, ihs]
    | false =>
      simp only [Bool.false_eq_true, if_false, Bool.not_false, if_true]
      cases dashed with
      | true => simp [joinPieces, ihs]
      | false => simp [joinPieces, ihs]

/-- One hyphen or none. -/
def Dash (s : List Char) : Prop := s = [] ∨ s = ['-']

/-- The nonempty pieces are joined by single hyphens, with perhaps one more at the end. -/
theorem joinPieces_true (pieces : List (List Char)) :
    ∃ trail, Dash trail ∧ (pieces.filter (· ≠ []) = [] → trail = []) ∧
      joinPieces true pieces = ['-'].intercalate (pieces.filter (· ≠ [])) ++ trail := by
  induction pieces with
  | nil => exact ⟨[], .inl rfl, fun _ => rfl, rfl⟩
  | cons piece pieces ih =>
    cases pieces with
    | nil =>
      refine ⟨[], .inl rfl, fun _ => rfl, ?_⟩
      by_cases hpiece : piece = [] <;> simp [joinPieces, hpiece]
    | cons next rest =>
      obtain ⟨trail, hdash, hnone, hjoin⟩ := ih
      by_cases hpiece : piece = []
      · refine ⟨trail, hdash, ?_, ?_⟩
        · simpa [hpiece] using hnone
        · simpa [joinPieces, hpiece] using hjoin
      · have hfilter : (piece :: next :: rest).filter (· ≠ []) =
            piece :: (next :: rest).filter (· ≠ []) := by simp [hpiece]
        have hhead : joinPieces true (piece :: next :: rest) =
            piece ++ '-' :: joinPieces true (next :: rest) := by simp [joinPieces, hpiece]
        rw [hfilter, hhead, hjoin]
        cases hwords : (next :: rest).filter (· ≠ []) with
        | nil => exact ⟨['-'], .inr rfl, by simp, by simp [hnone hwords]⟩
        | cons word words =>
          refine ⟨trail, hdash, by simp, ?_⟩
          rw [intercalate_cons_cons]
          simp

/-- In front there is one more hyphen at most. -/
theorem joinPieces_false (pieces : List (List Char)) :
    ∃ lead, Dash lead ∧ joinPieces false pieces = lead ++ joinPieces true pieces := by
  match pieces with
  | [] => exact ⟨[], .inl rfl, rfl⟩
  | [piece] => exact ⟨[], .inl rfl, rfl⟩
  | piece :: next :: rest =>
    by_cases hpiece : piece = []
    · exact ⟨['-'], .inr rfl, by simp [joinPieces, hpiece]⟩
    · exact ⟨[], .inl rfl, by simp [joinPieces, hpiece]⟩

theorem trim_dashes {lead trail : List Char} (hlead : Dash lead) (htrail : Dash trail)
    (s : List Char) : Path.trim '-' (lead ++ (s ++ trail)) = Path.trim '-' s := by
  have hend : Path.trim '-' (s ++ trail) = Path.trim '-' s := by
    rcases htrail with rfl | rfl
    · rw [append_nil]
    · exact Path.trim_append_cut '-' s
  rcases hlead with rfl | rfl
  · exact hend
  · exact (Path.trim_cons_cut '-' _).trans hend

theorem dnsName_eq : dnsName casing id = canonicalName casing id := by
  unfold dnsName canonicalName canonicalText dnsWords
  rw [dashRuns_eq]
  obtain ⟨lead, hlead, hfront⟩ :=
    joinPieces_false ((id.toList.map casing.lower).splitOnP (fun c => !dnsCharacter c))
  obtain ⟨trail, htrail, -, hback⟩ :=
    joinPieces_true ((id.toList.map casing.lower).splitOnP (fun c => !dnsCharacter c))
  rw [hfront, hback, trim_dashes hlead htrail]

/-- A name that Kubernetes accepts and that is not cut. -/
structure IsDnsName : Prop where
  nonempty : id ≠ ""
  characters : ∀ c ∈ id.toList, dnsCharacter c = true
  first : id.toList.head? ≠ some '-'
  last : id.toList.getLast? ≠ some '-'
  short : id.toList.length ≤ 40

theorem dashRuns_keep {keep : Char → Bool} {cs : List Char} (h : ∀ c ∈ cs, keep c = true)
    (dashed : Bool) : dashRuns keep dashed cs = cs := by
  induction cs generalizing dashed with
  | nil => rfl
  | cons c cs ih =>
    rw [dashRuns, if_pos (h c mem_cons_self), ih (fun c' hc' => h c' (mem_cons_of_mem c hc'))]

/-- Lower-casing leaves the characters of names alone. -/
def Casing.KeepsNames : Prop := ∀ c, dnsCharacter c = true → casing.lower c = c

variable {casing : Casing}

theorem dnsName_of_isDnsName (hcasing : casing.KeepsNames) {id : String}
    (h : IsDnsName id) : dnsName casing id = id := by
  have hlower : id.toList.map casing.lower = id.toList := by
    rw [map_congr_left (fun c hc => hcasing c (h.characters c hc)), map_id']
  have hne : id.toList ≠ [] := by
    rw [Ne, ← String.toList_empty, String.toList_inj]
    exact h.nonempty
  unfold dnsName
  rw [hlower, dashRuns_keep h.characters, Path.trim_eq_self h.first h.last,
    take_of_length_le h.short]
  simp [hne]

theorem plan_ok {request : Request} {plan : Plan} (h : Planner.plan casing request = .ok plan) :
    plan.namespaceName = "aicloud-task-" ++ canonicalName casing request.taskID ∧
      plan.serviceAccount = "sandbox-" ++ canonicalName casing request.taskID := by
  unfold Planner.plan at h
  rw [← dnsName_eq]
  split at h
  · cases h
  cases h
  exact ⟨rfl, rfl⟩

theorem append_inj_right {pre s t : String} : pre ++ s = pre ++ t ↔ s = t := by
  rw [← String.toList_inj, String.toList_append, String.toList_append, append_cancel_left_eq,
    String.toList_inj]

/-- The sandboxes of two accepted requests have different namespaces and different service
accounts if and only if their task ids have different canonical names, as different ids
that are names have. -/
theorem sandboxes_apart_iff (casing : Casing) (request request' : Request) {plan plan' : Plan}
    (h : Planner.plan casing request = .ok plan) (h' : Planner.plan casing request' = .ok plan') :
    (plan.namespaceName ≠ plan'.namespaceName ∧ plan.serviceAccount ≠ plan'.serviceAccount ↔
      canonicalName casing request.taskID ≠ canonicalName casing request'.taskID) ∧
    (casing.KeepsNames → IsDnsName request.taskID → IsDnsName request'.taskID →
      request.taskID ≠ request'.taskID →
      plan.namespaceName ≠ plan'.namespaceName ∧ plan.serviceAccount ≠ plan'.serviceAccount) := by
  have hiff : plan.namespaceName ≠ plan'.namespaceName ∧
      plan.serviceAccount ≠ plan'.serviceAccount ↔
        canonicalName casing request.taskID ≠ canonicalName casing request'.taskID := by
    rw [(plan_ok h).1, (plan_ok h).2, (plan_ok h').1, (plan_ok h').2, Ne, Ne, append_inj_right,
      append_inj_right, and_self]
  refine ⟨hiff, ?_⟩
  intro hcasing hname hname' hne
  rw [hiff, ← dnsName_eq, ← dnsName_eq, dnsName_of_isDnsName hcasing hname,
    dnsName_of_isDnsName hcasing hname']
  exact hne

def asciiCasing : Casing := ⟨Char.toUpper, Char.toLower⟩

theorem asciiCasing_keepsNames : asciiCasing.KeepsNames := by
  have hsmall : ∀ n < 128, dnsCharacter (Char.ofNat n) = true →
      (Char.ofNat n).toLower = Char.ofNat n := by decide
  intro c hc
  have hlt : c.toNat < 128 := by
    by_contra hge
    have hz : ¬ c ≤ 'z' := fun hle => hge (Nat.lt_of_le_of_lt hle (by decide))
    have h9 : ¬ c ≤ '9' := fun hle => hge (Nat.lt_of_le_of_lt hle (by decide))
    have hdash : c ≠ '-' := by
      rintro rfl
      exact hge (by decide)
    simp [dnsCharacter, hz, h9, hdash] at hc
  have hkeeps := hsmall c.toNat hlt
  rw [Char.ofNat_toNat] at hkeeps
  exact hkeeps hc

def shellRequest (taskID : String) : Request :=
  ⟨taskID, "trace", "shell", "image", ["run"], [], "",
    ⟨"1", "1Gi", 60000000000, .denyAll, [], true, "", false⟩⟩

/-- The ids that the control plane makes of its clock's nanoseconds, an `int64`, are names. -/
theorem isDnsName_generated (nanos : Nat) (h : nanos < 9223372036854775808) :
    IsDnsName ("task-" ++ nanos.repr) := by
  have hlength : nanos.repr.toList.length ≤ 35 := by
    rw [Nat.repr_eq_ofList_toDigits, String.toList_ofList]
    exact (Nat.length_toDigits_le_iff (by decide) (by decide)).mpr (Nat.lt_trans h (by decide))
  have hdigit : ∀ c ∈ nanos.repr.toList, dnsCharacter c = true ∧ c ≠ '-' := by
    intro c hc
    have hc := Text.isDigit_of_mem_repr hc
    refine ⟨?_, by rintro rfl; simp at hc⟩
    simp only [Char.isDigit, Bool.and_eq_true, decide_eq_true_eq] at hc
    have hrange : '0' ≤ c ∧ c ≤ '9' := hc
    simp [dnsCharacter, hrange]
  have hlast := getLast?_append_of_ne_nil "task-".toList (Text.repr_toList_ne_nil nanos)
  constructor
  · intro hempty
    have := congrArg String.toList hempty
    simp at this
  · rw [String.toList_append]
    exact forall_mem_append.mpr ⟨by decide, fun c hc => (hdigit c hc).1⟩
  · simp
  · rw [String.toList_append, hlast]
    intro h
    exact (hdigit _ (mem_of_getLast? h)).2 rfl
  · rw [String.toList_append, length_append]
    have : "task-".toList.length = 5 := by decide
    omega

theorem generated_ids_apart :
    ∃ plan plan', Planner.plan asciiCasing (shellRequest "task-1785110400000000000") = .ok plan ∧
      Planner.plan asciiCasing (shellRequest "task-1785110400000000001") = .ok plan' ∧
      plan.namespaceName ≠ plan'.namespaceName ∧ plan.serviceAccount ≠ plan'.serviceAccount := by
  refine ⟨_, _, rfl, rfl, ?_⟩
  exact (sandboxes_apart_iff asciiCasing (shellRequest "task-1785110400000000000")
    (shellRequest "task-1785110400000000001") rfl rfl).2 asciiCasing_keepsNames
      (isDnsName_generated 1785110400000000000 (by decide))
      (isDnsName_generated 1785110400000000001 (by decide)) (by decide)

/-- Ids that differ in a capital letter share a sandbox. -/
theorem capital_letter_shares_sandbox :
    ∃ plan plan', Planner.plan asciiCasing (shellRequest "task-1") = .ok plan ∧
      Planner.plan asciiCasing (shellRequest "Task-1") = .ok plan' ∧
      plan.namespaceName = plan'.namespaceName ∧ plan.serviceAccount = plan'.serviceAccount := by
  refine ⟨_, _, rfl, rfl, ?_⟩
  decide

/-- A DNS-1123 label. -/
structure IsLabel (name : String) : Prop where
  short : name.toList.length ≤ 63
  characters : ∀ c ∈ name.toList, dnsCharacter c = true
  first : ∃ c, name.toList.head? = some c ∧ c ≠ '-'
  last : ∃ c, name.toList.getLast? = some c ∧ c ≠ '-'

theorem dashRuns_characters {cs : List Char} {dashed : Bool} :
    ∀ c ∈ dashRuns dnsCharacter dashed cs, dnsCharacter c = true := by
  induction cs generalizing dashed with
  | nil => exact forall_mem_nil _
  | cons d cs ih =>
    unfold dashRuns
    split_ifs with hkeep hdashed
    · exact forall_mem_cons.mpr ⟨hkeep, ih⟩
    · exact ih
    · exact forall_mem_cons.mpr ⟨by decide, ih⟩

theorem dnsName_shape (casing : Casing) (id : String) :
    (∀ c ∈ (dnsName casing id).toList, dnsCharacter c = true) ∧
      (dnsName casing id).toList ≠ [] ∧ (dnsName casing id).toList.length ≤ 40 := by
  unfold dnsName
  dsimp only
  split_ifs with hnil
  · decide
  rw [String.toList_ofList]
  refine ⟨fun c hc => ?_, hnil, length_take_le _ _⟩
  have hrun := (dropWhile_sublist _).mem (mem_reverse.mp (mem_of_mem_take hc))
  exact dashRuns_characters c ((dropWhile_sublist _).mem (mem_reverse.mp hrun))

/-- Behind one of the planner's words a name is a label unless it was cut at a hyphen. -/
theorem isLabel_append_iff {word name : String} (hword : ∀ c ∈ word.toList, dnsCharacter c = true)
    (hfirst : ∃ c, word.toList.head? = some c ∧ c ≠ '-') (hshort : word.toList.length ≤ 23)
    (hname : (∀ c ∈ name.toList, dnsCharacter c = true) ∧ name.toList ≠ [] ∧
      name.toList.length ≤ 40) : IsLabel (word ++ name) ↔ name.toList.getLast? ≠ some '-' := by
  obtain ⟨hchars, hne, hlength⟩ := hname
  have hlast : (word ++ name).toList.getLast? = name.toList.getLast? := by
    rw [String.toList_append, getLast?_append_of_ne_nil _ hne]
  constructor
  · intro h hdash
    obtain ⟨c, hc, hnot⟩ := h.last
    rw [hlast, hdash] at hc
    exact hnot (Option.some.inj hc).symm
  · intro hdash
    refine ⟨?_, ?_, ?_, name.toList.getLast hne, ?_, fun heq => hdash ?_⟩
    · rw [String.toList_append, length_append]
      omega
    · rw [String.toList_append]
      exact forall_mem_append.mpr ⟨hword, hchars⟩
    · obtain ⟨c, hc, hnot⟩ := hfirst
      exact ⟨c, by rw [String.toList_append, head?_append, hc, Option.some_or], hnot⟩
    · rw [hlast, getLast?_eq_some_getLast hne]
    · rw [getLast?_eq_some_getLast hne, heq]

/-- The text is cut behind its fortieth character, if it has more. -/
theorem canonicalName_last (casing : Casing) (id : String) :
    (canonicalName casing id).toList.getLast? ≠ some '-' ↔
      (canonicalText casing id).length ≤ 40 ∨ (canonicalText casing id)[39]? ≠ some '-' := by
  have hlast : (canonicalText casing id).getLast? ≠ some '-' := Path.trim_getLast? _ _
  unfold canonicalName
  generalize canonicalText casing id = text at hlast ⊢
  dsimp only
  split_ifs with hnil
  · have hshort : text = [] := (take_eq_nil_iff.mp hnil).resolve_left (by decide)
    exact iff_of_true (by decide) (.inl (by simp [hshort]))
  rw [String.toList_ofList]
  by_cases hlong : text.length ≤ 40
  · rw [take_of_length_le hlong]
    exact iff_of_true hlast (.inl hlong)
  · have hcut : (text.take 40).getLast? = text[39]? := by
      rw [getLast?_eq_getElem?, length_take, Nat.min_eq_left (by omega)]
      exact getElem?_take_of_lt (by decide)
    rw [hcut]
    exact ⟨.inr, fun h => h.resolve_left hlong⟩

/-- The job of an accepted request has a deadline of one second to one hour, and the three
names are labels, iff the timeout is a second or more and the text of the task id is not
cut behind a hyphen. -/
theorem planned_job_valid_iff (casing : Casing) (request : Request) {plan : Plan}
    (h : Planner.plan casing request = .ok plan) :
    (1 ≤ plan.deadlineSeconds ∧ plan.deadlineSeconds ≤ 3600) ∧ IsLabel plan.namespaceName ∧
        IsLabel plan.serviceAccount ∧ IsLabel plan.jobName ↔ 1000000000 ≤ request.limits.timeout ∧
        ((canonicalText casing request.taskID).length ≤ 40 ∨
          (canonicalText casing request.taskID)[39]? ≠ some '-') := by
  have hname := dnsName_shape casing request.taskID
  unfold Planner.plan at h
  split at h
  · cases h
  rename_i hvalid
  cases h
  have htimeout : 0 < request.limits.timeout ∧ request.limits.timeout ≤ hour := by
    unfold validate at hvalid
    by_contra hout
    have herror : request.limits.timeout ≤ 0 ∨ hour < request.limits.timeout := by omega
    rw [if_pos herror] at hvalid
    split_ifs at hvalid
  have hdeadline : request.limits.timeout.tdiv 1000000000 =
      request.limits.timeout / 1000000000 := Int.tdiv_eq_ediv_of_nonneg (by omega)
  dsimp only
  rw [isLabel_append_iff (by decide) ⟨'a', rfl, by decide⟩ (by decide) hname,
    isLabel_append_iff (by decide) ⟨'s', rfl, by decide⟩ (by decide) hname,
    isLabel_append_iff (by decide) ⟨'t', rfl, by decide⟩ (by decide) hname, and_self, and_self,
    hdeadline, dnsName_eq, canonicalName_last]
  unfold hour at htimeout
  refine and_congr_left' ?_
  omega

theorem minute_job_valid : ∃ plan, Planner.plan asciiCasing (shellRequest "task-1") = .ok plan ∧
    (1 ≤ plan.deadlineSeconds ∧ plan.deadlineSeconds ≤ 3600) ∧ IsLabel plan.namespaceName ∧
      IsLabel plan.serviceAccount ∧ IsLabel plan.jobName :=
  ⟨_, rfl, (planned_job_valid_iff asciiCasing (shellRequest "task-1") rfl).mpr (by decide)⟩

/-- Half a second is accepted and becomes no deadline at all; the fortieth character may be
a hyphen. -/
theorem short_timeout_planned :
    (∃ plan, Planner.plan asciiCasing { shellRequest "task-1" with
        limits := { (shellRequest "task-1").limits with timeout := 500000000 } } = .ok plan ∧
      plan.deadlineSeconds = 0) ∧
    ∃ plan, Planner.plan asciiCasing
        (shellRequest "task-for-the-quarterly-reports-of-plans-x") = .ok plan ∧
      plan.jobName.toList.getLast? = some '-' :=
  ⟨⟨_, rfl, by decide⟩, ⟨_, rfl, by decide⟩⟩

theorem validate_workspace {request : Request}
    (haccepted : validate casing request = .ok ()) (hpath : request.limits.workspacePath ≠ "") :
    workspaceAllowed request.limits.workspacePath = true := by
  by_contra hnot
  rw [Bool.not_eq_true] at hnot
  unfold validate at haccepted
  simp only [hpath, hnot, ne_eq, not_false_eq_true, and_self, if_true] at haccepted
  repeat' split at haccepted
  all_goals cases haccepted

/-- The workspace of an accepted request stays in its directory iff the first element of the
path is no longer than the directory's name, which the test has found at its start. -/
theorem workspace_inside_iff (casing : Casing) (request : Request)
    (haccepted : validate casing request = .ok ()) (hpath : request.limits.workspacePath ≠ "") :
    Path.clean request.limits.workspacePath.toList = "/workspace".toList ∨
        "/workspace/".toList <+: Path.clean request.limits.workspacePath.toList ↔
      ∀ first ∈ (Path.resolved request.limits.workspacePath.toList).head?, first.length ≤ 9 := by
  have hallowed := validate_workspace haccepted hpath
  unfold workspaceAllowed at hallowed
  rw [Bool.and_eq_true, isPrefixOf_iff_prefix] at hallowed
  have hstart := hallowed.1
  have hdir : "/workspace".toList = '/' :: "workspace".toList := by decide
  have hunder : "/workspace/".toList = '/' :: "workspace".toList ++ ['/'] := by decide
  have hslash : '/' ∉ "workspace".toList := by decide
  have hne : "workspace".toList ≠ [] := by decide
  have hlength : "workspace".toList.length = 9 := by decide
  rw [hdir] at hstart ⊢
  rw [hunder]
  -- Only the length of the directory's name matters from here.
  generalize "workspace".toList = dir at *
  obtain ⟨first, hfirst, hname⟩ := Path.head?_of_clean hstart hslash hne
  obtain ⟨rest, hrest⟩ := hstart
  rw [Path.clean_inside_iff hrest.symm hslash hne, hfirst, ← hlength]
  constructor
  · intro h element helement
    rw [← Option.some.inj helement, Option.some.inj h]
  · intro h
    rw [hname.eq_of_length_le (h first rfl)]

def workspaceRequest (path : String) : Request :=
  ⟨"task", "trace", "shell", "image", ["run"], [], "",
    ⟨"1", "1Gi", 60000000000, .denyAll, [], true, path, false⟩⟩

theorem sibling_workspace_accepted :
    validate asciiCasing (workspaceRequest "/workspace-other") = .ok () ∧
      Path.clean "/workspace-other".toList ≠ "/workspace".toList ∧
      ¬ "/workspace/".toList <+: Path.clean "/workspace-other".toList := by
  decide

theorem nested_workspace_inside :
    Path.clean "/workspace/../workspace/src".toList = "/workspace".toList ∨
      "/workspace/".toList <+: Path.clean "/workspace/../workspace/src".toList :=
  (workspace_inside_iff asciiCasing (workspaceRequest "/workspace/../workspace/src")
    (by decide) (by decide)).mpr (by decide)

end AiCloud.Sandbox
