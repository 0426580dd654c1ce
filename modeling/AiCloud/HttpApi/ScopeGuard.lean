import AiCloud.Lib.Path
import AiCloud.Lib.Program
import AiCloud.Lib.Text

/-!
# Task resources of the HTTP API

`FullHandler` from the task scope guard inwards, for the requests under
`/api/v1/tasks/`: the guard, the route command in front of the mux, the method-aware
evidence routes and the resource handler behind them. The guard, the route command and
the resource handler read the decoded path; the mux matches the escaped path segment by
segment. The guard takes the first part up to a colon, a handler that part as a whole or
the escaped segment.
-/
namespace AiCloud.HttpApi

open Lib Path Text List

/-- What Go keeps as a string of bytes, byte by byte. -/
abbrev Bytes := List Char

inductive Method
  | get
  | head
  | post
  | connect
  | other (text : String)
  deriving DecidableEq

/-- The operations of the control plane that take a task id. -/
inductive Operation
  | getTask
  | executeTool (toolID : Bytes)
  | decideRoute
  | decideRouteIdempotent
  | listRouteDecisions
  | listCostEvents
  | listToolAudit
  | executeModelIdempotent
  | listTrace
  | listEvaluations
  | createEvaluation
  deriving DecidableEq

def taskPrefix : Bytes := "/api/v1/tasks/".toList

/-- A request under the task prefix. `body` is what decoding and checking the body for an
operation gives, an error with its text. -/
structure Request where
  method : Method
  (escapedPath path : Bytes)
  decoded : unescape escapedPath = some path
  under : taskPrefix <+: path
  idempotencyKey : String
  body : Operation → Except String Unit

variable (req : Request)

/-- `strings.TrimPrefix(r.URL.Path, "/api/v1/tasks/")`. -/
def Request.rest : Bytes := req.path.drop taskPrefix.length

inductive Response
  | error (status : Nat) (message : String)
  | methodNotAllowed (allow : List Method)
  | redirect (path : Bytes)
  | pageNotFound
  | result (status : Nat) (body : String)
  deriving DecidableEq

/-- A handler writes a response, or calls the control plane once for a task and writes
what comes back. -/
abbrev Handled := Except Response (Operation × Bytes)

def badRequest (message : String) : Handled := .error (.error 400 message)

/-- The call of an operation whose body has to be accepted first. -/
def withBody (op : Operation) (taskID : Bytes) : Handled :=
  match req.body op with
  | .error message => badRequest message
  | .ok _ => .ok (op, taskID)

def readOnly (op : Operation) (taskID : Bytes) : Handled :=
  if req.method ≠ .get then .error (.methodNotAllowed [.get]) else .ok (op, taskID)

def executeTool (taskID toolID : Bytes) : Handled :=
  if req.method ≠ .post then .error (.methodNotAllowed [.post])
  else if toolID = [] then badRequest "tool id is required"
  else withBody req (.executeTool toolID) taskID

variable (taskID : Bytes)

def routeTask : Handled :=
  if req.method ≠ .post then .error (.methodNotAllowed [.post])
  else withBody req .decideRoute taskID

def resourceNotFound : Handled := .error (.error 404 "task resource not found")

def taskResource : Handled :=
  match split '/' (trim '/' req.rest) with
  | [] => badRequest "task id is required"
  | taskID :: parts =>
    if taskID = [] then badRequest "task id is required"
    else match parts with
      | [] => readOnly req .getTask taskID
      | [resource, toolID] =>
        if resource = "tools".toList then executeTool req taskID toolID else resourceNotFound
      | [resource] =>
        if resource = "route".toList then routeTask req taskID
        else if resource = "routes".toList then readOnly req .listRouteDecisions taskID
        else if resource = "costs".toList then readOnly req .listCostEvents taskID
        else if resource = "audit".toList then readOnly req .listToolAudit taskID
        else resourceNotFound
      | _ => resourceNotFound

def executeModel : Handled :=
  if taskID = [] then badRequest "task id is required"
  else if Blank req.idempotencyKey then badRequest "Idempotency-Key is required"
  else withBody req .executeModelIdempotent taskID

def taskTrace : Handled := .ok (.listTrace, taskID)

def taskEvaluations : Handled :=
  if taskID = [] then badRequest "task id is required"
  else match req.method with
    | .get => .ok (.listEvaluations, taskID)
    | .post => withBody req .createEvaluation taskID
    | _ => .error (.methodNotAllowed [.get, .post])

def pathUnescape (segment : Bytes) : Bytes := (unescape segment).getD segment

/-- The canonical form of a path, which keeps a slash at its end. -/
def cleanPath (p : Bytes) : Bytes :=
  let p := if p.head? = some '/' then p else '/' :: p
  if p.getLast? = some '/' ∧ clean p ≠ ['/'] then clean p ++ ['/'] else clean p

/-- The segments `api`, `v1` and `tasks`. -/
def underTasks (a b c : Bytes) : Prop :=
  pathUnescape a = "api".toList ∧ pathUnescape b = "v1".toList ∧ pathUnescape c = "tasks".toList

instance (a b c : Bytes) : Decidable (underTasks a b c) := inferInstanceAs (Decidable (_ ∧ _))

/-- The pattern a request matches among `POST /api/v1/tasks/[id]/model`,
`GET .../trace`, `GET .../evaluations` and `POST .../evaluations`, in which the id is one
segment. A `GET` pattern also takes `HEAD`. -/
def evidenceRoute : Option Handled :=
  match split '/' req.escapedPath with
  | [[], a, b, c, id, last] =>
    if underTasks a b c ∧ pathUnescape id ≠ ['/'] then
      let gets := req.method = .get ∨ req.method = .head
      if req.method = .post ∧ pathUnescape last = "model".toList then
        some (executeModel req (pathUnescape id))
      else if gets ∧ pathUnescape last = "trace".toList then some (taskTrace (pathUnescape id))
      else if (gets ∨ req.method = .post) ∧ pathUnescape last = "evaluations".toList then
        some (taskEvaluations req (pathUnescape id))
      else none
    else none
  | _ => none

/-- `Handler`, whose mux sends what lies under `/api/v1/tasks/` to the resource handler. -/
def handler : Handled :=
  match split '/' req.escapedPath with
  | [] :: a :: b :: c :: _ :: _ =>
    if underTasks a b c then taskResource req else .error .pageNotFound
  | _ => .error .pageNotFound

def mux : Handled :=
  if req.method ≠ .connect ∧ cleanPath req.escapedPath ≠ req.escapedPath then
    .error (.redirect (cleanPath req.escapedPath))
  else match evidenceRoute req with
    | some handled => handled
    | none => handler req

def routeCommandTaskID : Option Bytes :=
  match split '/' (trim '/' req.rest) with
  | [taskID, resource] =>
    if taskID = [] ∨ resource ≠ "route".toList then none else some taskID
  | _ => none

def routeTaskCommandAware : Handled :=
  if Blank req.idempotencyKey then badRequest "Idempotency-Key is required"
  else withBody req .decideRouteIdempotent taskID

def commandAwareTaskMutations : Handled :=
  if req.method = .post then
    match routeCommandTaskID req with
    | some taskID => routeTaskCommandAware req taskID
    | none => mux req
  else mux req

/-- The task the guard resolves; `none` passes the request on without a check. -/
def guardTaskID : Option Bytes :=
  let path := trim '/' req.rest
  if path = [] then none
  else
    let taskID := (split '/' path).headD []
    let taskID := if ':' ∈ taskID then (split ':' taskID).headD [] else taskID
    if taskID = [] then none else some taskID

/-- The calls of one request: the guard's scoped lookup and the handlers' calls. -/
inductive Query
  | resolve (taskID : Bytes)
  | control (op : Operation) (taskID : Bytes)

def Answer : Query → Type
  | .resolve _ => Except Response Unit
  | .control _ _ => Response

abbrev Serving := Prog Query Answer Response

def resolve : Prog Query Answer (Except Response Unit) :=
  Prog.request (Query.resolve taskID)

def control (op : Operation) (taskID : Bytes) : Serving := Prog.request (Query.control op taskID)

def handle : Serving :=
  match commandAwareTaskMutations req with
  | .error response => pure response
  | .ok (op, taskID) => control op taskID

def taskScopeGuard : Serving :=
  match guardTaskID req with
  | none => handle req
  | some taskID => do
    match ← resolve taskID with
    | .error response => pure response
    | .ok _ => handle req

/-- A call for a task comes after a successful lookup of that task by the guard. -/
def Scoped (history : List (Sigma Answer)) : Query → Prop
  | .resolve _ => True
  | .control _ taskID =>
    (⟨.resolve taskID, (Except.ok () : Except Response Unit)⟩ : Sigma Answer) ∈ history

/-- Whatever the control plane answers, every call of the request is scoped. -/
def Guarded : Prop :=
  Prog.Conforms Scoped (fun _ _ => True) [] (taskScopeGuard req)

/-- The first part of the decoded path after the prefix. -/
def Request.firstPart : Bytes := (split '/' (trim '/' req.rest)).headD []

/-- The fourth segment of the escaped path, decoded by itself. -/
def Request.idSegment : Bytes :=
  pathUnescape ((split '/' req.escapedPath).getD 4 [])

/-- The handler lets the request through to the control plane. -/
def Request.Accepted : Prop :=
  ∃ call, commandAwareTaskMutations req = .ok call

/-- The request goes to one of the evidence handlers. -/
def Request.Evidence : Prop :=
  (evidenceRoute req).isSome ∧ (req.method = .post → routeCommandTaskID req = none)

/-- Guard and handlers read the same id. -/
def Request.Plain : Prop :=
  ':' ∉ req.firstPart ∧ (req.Evidence → '/' ∉ req.idSegment)

variable {req : Request} {id taskID : Bytes}

theorem withBody_ok {op op' : Operation} (h : withBody req op taskID = .ok (op', id)) :
    id = taskID := by
  unfold withBody at h
  split at h
  · cases h
  cases h
  rfl

theorem readOnly_ok {op op' : Operation} (h : readOnly req op taskID = .ok (op', id)) :
    id = taskID := by
  unfold readOnly at h
  split at h
  · cases h
  cases h
  rfl

variable {op : Operation} {taskID id : Bytes}

theorem executeTool_ok {toolID : Bytes} (h : executeTool req taskID toolID = .ok (op, id)) :
    id = taskID := by
  unfold executeTool at h
  split at h
  · cases h
  split at h
  · cases h
  exact withBody_ok h

theorem routeTask_ok (h : routeTask req taskID = .ok (op, id)) : id = taskID := by
  unfold routeTask at h
  split at h
  · cases h
  exact withBody_ok h

theorem taskResource_ok (h : taskResource req = .ok (op, id)) : id = req.firstPart ∧ id ≠ [] := by
  unfold taskResource at h
  unfold Request.firstPart
  split at h
  · cases h
  rename_i taskID parts hparts
  rw [hparts]
  split at h
  · cases h
  rename_i hne
  have hid : id = taskID := by
    split at h
    · exact readOnly_ok h
    · split at h
      · exact executeTool_ok h
      · cases h
    · split at h
      · exact routeTask_ok h
      split at h
      · exact readOnly_ok h
      split at h
      · exact readOnly_ok h
      split at h
      · exact readOnly_ok h
      cases h
    · cases h
  exact ⟨hid, hid ▸ hne⟩

theorem handler_ok (h : handler req = .ok (op, id)) : id = req.firstPart ∧ id ≠ [] := by
  unfold handler at h
  split at h
  · split at h
    · exact taskResource_ok h
    · cases h
  · cases h

theorem routeCommandTaskID_some (h : routeCommandTaskID req = some taskID) :
    taskID = req.firstPart ∧ taskID ≠ [] := by
  unfold routeCommandTaskID at h
  unfold Request.firstPart
  split at h
  · rename_i hparts
    rw [hparts]
    split at h
    · cases h
    rename_i hne
    cases h
    exact ⟨rfl, fun he => hne (.inl he)⟩
  · cases h

theorem routeTaskCommandAware_ok (h : routeTaskCommandAware req taskID = .ok (op, id)) :
    id = taskID := by
  unfold routeTaskCommandAware at h
  split at h
  · cases h
  exact withBody_ok h

/-- The segments of a request to an evidence handler. -/
structure EvidencePath (req : Request) (a b c segment last : Bytes) : Prop where
  segments : split '/' req.escapedPath = [[], a, b, c, segment, last]
  under : underTasks a b c
  last_mem : pathUnescape last = "model".toList ∨ pathUnescape last = "trace".toList ∨
    pathUnescape last = "evaluations".toList
  method : req.method ≠ .connect

theorem executeModel_ok (h : executeModel req taskID = .ok (op, id)) : id = taskID := by
  unfold executeModel at h
  split at h
  · cases h
  split at h
  · cases h
  exact withBody_ok h

theorem taskEvaluations_ok (h : taskEvaluations req taskID = .ok (op, id)) : id = taskID := by
  unfold taskEvaluations at h
  split at h
  · cases h
  split at h
  · cases h
    rfl
  · exact withBody_ok h
  · cases h

theorem evidenceRoute_ok (h : evidenceRoute req = some (.ok (op, id))) :
    ∃ a b c segment last, EvidencePath req a b c segment last ∧ id = pathUnescape segment := by
  unfold evidenceRoute at h
  split at h
  · rename_i a b c segment last hsegments
    split at h
    · rename_i hunder
      dsimp only at h
      split at h
      · rename_i hm
        refine ⟨a, b, c, segment, last, ⟨hsegments, hunder.1, .inl hm.2, ?_⟩,
          executeModel_ok (Option.some.inj h)⟩
        rw [hm.1]
        exact Method.noConfusion
      split at h
      · rename_i hm
        refine ⟨a, b, c, segment, last, ⟨hsegments, hunder.1, .inr (.inl hm.2), ?_⟩, ?_⟩
        · rcases hm.1 with hg | hg <;> rw [hg] <;> exact Method.noConfusion
        · cases h
          rfl
      split at h
      · rename_i hm
        refine ⟨a, b, c, segment, last, ⟨hsegments, hunder.1, .inr (.inr hm.2), ?_⟩,
          taskEvaluations_ok (Option.some.inj h)⟩
        rcases hm.1 with (hg | hg) | hg <;> rw [hg] <;> exact Method.noConfusion
      · cases h
    · cases h
  · cases h

section Evidence

variable {req : Request} {a b c segment last : Bytes}

section

variable (h : EvidencePath req a b c segment last)

include h

theorem EvidencePath.escaped : req.escapedPath =
    [] ++ '/' :: (a ++ '/' :: (b ++ '/' :: (c ++ '/' :: (segment ++ '/' :: last)))) := by
  have hjoin := intercalate_split '/' req.escapedPath
  rw [h.segments] at hjoin
  simp only [intercalate_cons_cons, intercalate_singleton, nil_append,
    append_assoc, singleton_append] at hjoin
  exact hjoin.symm

theorem EvidencePath.idSegment : req.idSegment = pathUnescape segment := by
  unfold Request.idSegment
  rw [h.segments]
  rfl

omit h in
theorem unescape_slash_some {x y path : Bytes} (h : unescape (x ++ '/' :: y) = some path) :
    ∃ tail, unescape y = some tail ∧ path = pathUnescape x ++ '/' :: tail := by
  rw [unescape_slash, Option.bind_eq_some_iff] at h
  obtain ⟨x', hx, hy⟩ := h
  obtain ⟨tail, htail, rfl⟩ := Option.map_eq_some_iff.mp hy
  exact ⟨tail, htail, by simp [pathUnescape, hx]⟩

theorem EvidencePath.rest : req.rest = pathUnescape segment ++ '/' :: pathUnescape last := by
  have hdecoded := req.decoded
  rw [h.escaped] at hdecoded
  obtain ⟨t₁, h₁, hpath⟩ := unescape_slash_some hdecoded
  obtain ⟨t₂, h₂, rfl⟩ := unescape_slash_some h₁
  obtain ⟨t₃, h₃, rfl⟩ := unescape_slash_some h₂
  obtain ⟨t₄, h₄, rfl⟩ := unescape_slash_some h₃
  obtain ⟨t₅, h₅, rfl⟩ := unescape_slash_some h₄
  have hlast : pathUnescape last = t₅ := by simp [pathUnescape, h₅]
  obtain ⟨ha, hb, hc⟩ := h.under
  have hnil : pathUnescape [] = [] := rfl
  unfold Request.rest
  rw [hpath, ha, hb, hc, hnil, hlast]
  rfl

omit h in
/-- A segment that decodes to a proper name is pushed by `clean` as it is. -/
theorem cleanStep_name {part name : Bytes} (h : pathUnescape part = name) (hne : name ≠ [])
    (hdot : name ≠ ['.']) (hdots : name ≠ ['.', '.']) (stack : List Bytes) :
    cleanStep true stack part = part :: stack := by
  have h₁ : part ≠ [] := by
    rintro rfl
    exact hne h.symm
  have h₂ : part ≠ ['.'] := by
    rintro rfl
    exact hdot h.symm
  have h₃ : part ≠ ['.', '.'] := by
    rintro rfl
    exact hdots h.symm
  simp [cleanStep, h₁, h₂, h₃]

theorem EvidencePath.last_ne_nil : last ≠ [] := by
  rintro rfl
  have hnil : pathUnescape [] = [] := rfl
  have hlast := h.last_mem
  rw [hnil] at hlast
  revert hlast
  decide

theorem EvidencePath.getLast_ne : req.escapedPath.getLast? ≠ some '/' := by
  have hslash : '/' ∉ last := not_mem_of_mem_split (by rw [h.segments]; simp)
  intro hend
  have hsplit : req.escapedPath = ([] ++ '/' :: (a ++ '/' :: (b ++ '/' :: (c ++ '/' ::
      (segment ++ ['/']))))) ++ last := by
    rw [h.escaped]
    simp
  rw [hsplit, getLast?_append_of_ne_nil _ h.last_ne_nil] at hend
  exact hslash (mem_of_getLast? hend)

end

section

variable (h : EvidencePath req a b c segment last)
  (hclean : cleanPath req.escapedPath = req.escapedPath)

include h hclean

/-- The mux redirects a request whose id segment is empty. -/
theorem EvidencePath.segment_ne_nil : segment ≠ [] := by
  rintro rfl
  have hroot : req.escapedPath.head? = some '/' := by
    rw [h.escaped]
    rfl
  obtain ⟨ha, hb, hc⟩ := h.under
  have hlast : ∀ stack, cleanStep true stack last = last :: stack := by
    rcases h.last_mem with hl | hl | hl <;>
      exact cleanStep_name hl (by decide) (by decide) (by decide)
  -- Cleaning drops the empty segment and nothing else.
  have hfold : clean req.escapedPath = '/' :: intercalate ['/'] [a, b, c, last] := by
    unfold clean
    rw [hroot, h.segments]
    simp only [foldl_cons, foldl_nil, decide_true, if_true]
    rw [show cleanStep true [] [] = [] from rfl,
      cleanStep_name ha (by decide) (by decide) (by decide),
      cleanStep_name hb (by decide) (by decide) (by decide),
      cleanStep_name hc (by decide) (by decide) (by decide),
      show cleanStep true [c, b, a] [] = [c, b, a] from rfl, hlast]
    rfl
  have hcleaned : cleanPath req.escapedPath = clean req.escapedPath := by
    unfold cleanPath
    simp only [hroot, if_true, h.getLast_ne, false_and, if_false]
  rw [hcleaned, hfold, h.escaped] at hclean
  have hlength := congrArg length hclean
  simp [intercalate_cons_cons] at hlength

theorem EvidencePath.id_ne_nil : pathUnescape segment ≠ [] := by
  intro hnil
  unfold pathUnescape at hnil
  cases hdec : unescape segment with
  | none => exact h.segment_ne_nil hclean (by simpa [hdec] using hnil)
  | some text =>
    rw [hdec, Option.getD_some] at hnil
    exact h.segment_ne_nil hclean (unescape_eq_nil (hnil ▸ hdec))

theorem EvidencePath.firstPart (hslash : '/' ∉ pathUnescape segment) :
    req.firstPart = pathUnescape segment := by
  have hhead : (pathUnescape segment ++ '/' :: pathUnescape last).head? ≠ some '/' := by
    cases hid : pathUnescape segment with
    | nil => exact absurd hid (h.id_ne_nil hclean)
    | cons x xs =>
      rintro ⟨⟩
      exact hslash (hid ▸ mem_cons_self)
  have hlast : (pathUnescape segment ++ '/' :: pathUnescape last).getLast? ≠ some '/' := by
    rcases h.last_mem with hl | hl | hl <;> rw [hl] <;> simp
  unfold Request.firstPart
  rw [h.rest, trim_eq_self hhead hlast, split_append hslash]
  rfl

end

end Evidence

theorem commandAware_ok (h : commandAwareTaskMutations req = .ok (op, id)) :
    (id = req.firstPart ∧ id ≠ [] ∧ ¬ req.Evidence) ∨
      (req.Evidence ∧ cleanPath req.escapedPath = req.escapedPath ∧
        ∃ a b c segment last, EvidencePath req a b c segment last ∧ id = pathUnescape segment) := by
  have hmux : mux req = .ok (op, id) → (req.method = .post → routeCommandTaskID req = none) →
      (id = req.firstPart ∧ id ≠ [] ∧ ¬ req.Evidence) ∨
        (req.Evidence ∧ cleanPath req.escapedPath = req.escapedPath ∧ ∃ a b c segment last,
          EvidencePath req a b c segment last ∧ id = pathUnescape segment) := by
    intro hm hroute
    unfold mux at hm
    split at hm
    · cases hm
    rename_i hredirect
    cases he : evidenceRoute req with
    | none =>
      simp only [he] at hm
      obtain ⟨hid, hne⟩ := handler_ok hm
      exact .inl ⟨hid, hne, fun hev => by simp [Request.Evidence, he] at hev⟩
    | some handled =>
      simp only [he] at hm
      rw [hm] at he
      obtain ⟨a, b, c, segment, last, hpath, hid⟩ := evidenceRoute_ok he
      refine .inr ⟨⟨by rw [he]; rfl, hroute⟩, ?_, a, b, c, segment, last, hpath, hid⟩
      by_contra hne
      exact hredirect ⟨hpath.method, hne⟩
  unfold commandAwareTaskMutations at h
  split at h
  · rename_i hpost
    cases hr : routeCommandTaskID req with
    | none =>
      simp only [hr] at h
      exact hmux h (fun _ => hr)
    | some taskID =>
      simp only [hr] at h
      obtain ⟨hid, hne⟩ := routeCommandTaskID_some hr
      have hsame := routeTaskCommandAware_ok h
      refine .inl ⟨hsame.trans hid, hsame ▸ hne, fun hev => ?_⟩
      rw [hev.2 hpost] at hr
      cases hr
  · rename_i hpost
    exact hmux h (fun hp => absurd hp hpost)

theorem slash_not_mem_firstPart (req : Request) : '/' ∉ req.firstPart :=
  not_mem_of_mem_split (headD_split_mem '/' _)

theorem guardTaskID_eq (req : Request) :
    guardTaskID req =
      if trim '/' req.rest = [] then none
      else if ':' ∈ req.firstPart then
        if (split ':' req.firstPart).headD [] = [] then none
        else some ((split ':' req.firstPart).headD [])
      else if req.firstPart = [] then none else some req.firstPart := by
  unfold guardTaskID
  by_cases hcolon : ':' ∈ req.firstPart
  · have hcolon' := hcolon
    unfold Request.firstPart at hcolon' ⊢
    simp only [if_pos hcolon']
  · have hcolon' := hcolon
    unfold Request.firstPart at hcolon' ⊢
    simp only [if_neg hcolon']

theorem guardTaskID_some (h : guardTaskID req = some taskID) : ':' ∉ taskID ∧ '/' ∉ taskID := by
  rw [guardTaskID_eq] at h
  split at h
  · cases h
  split at h
  · split at h
    · cases h
    cases h
    refine ⟨not_mem_of_mem_split (headD_split_mem ':' _), fun hslash => ?_⟩
    exact slash_not_mem_firstPart req ((headD_split_initial ':' _).mem hslash)
  · rename_i hcolon
    split at h
    · cases h
    cases h
    exact ⟨hcolon, slash_not_mem_firstPart req⟩

theorem guardTaskID_of_plain (hcolon : ':' ∉ req.firstPart) (hne : req.firstPart ≠ []) :
    guardTaskID req = some req.firstPart := by
  have hpath : trim '/' req.rest ≠ [] := by
    intro hnil
    exact hne (by simp [Request.firstPart, hnil, split])
  rw [guardTaskID_eq, if_neg hpath, if_neg hcolon, if_neg hne]

/-- The request is guarded when its call, if it makes one, is for the task the guard resolves. -/
theorem guarded_iff_resolves (req : Request) :
    Guarded req ↔ ∀ op id, commandAwareTaskMutations req = .ok (op, id) →
      guardTaskID req = some id := by
  unfold Guarded taskScopeGuard handle
  cases hg : guardTaskID req with
  | none =>
    cases hc : commandAwareTaskMutations req with
    | error response => exact iff_of_true trivial (fun op id h => by cases h)
    | ok call =>
      refine iff_of_false (fun h => ?_) (fun h => by cases h call.1 call.2 rfl)
      exact not_mem_nil h.1
  | some taskID =>
    cases hc : commandAwareTaskMutations req with
    | error response =>
      refine iff_of_true ⟨trivial, fun answer => ?_⟩ (fun op id h => by cases h)
      cases answer <;> exact trivial
    | ok call =>
      obtain ⟨op, id⟩ := call
      constructor
      · intro h op' id' hcall
        cases hcall
        have hscoped := (h.2 (Except.ok ())).1
        have hquery := congrArg Sigma.fst (mem_singleton.mp hscoped)
        cases hquery
        rfl
      · intro h
        cases h op id rfl
        refine ⟨trivial, fun answer => ?_⟩
        cases answer with
        | error response => exact trivial
        | ok u => exact ⟨mem_cons_self, fun _ => trivial⟩

/-- A request is guarded exactly when, if it is accepted, the part of its path that names
the task has no colon and its id segment hides no slash. -/
theorem guarded_iff_plain (req : Request) : Guarded req ↔ (req.Accepted → req.Plain) := by
  rw [guarded_iff_resolves]
  constructor
  · rintro h ⟨⟨op, id⟩, hcall⟩
    obtain ⟨hcolon, hslash⟩ := guardTaskID_some (h op id hcall)
    rcases commandAware_ok hcall with
      ⟨rfl, -, hplain⟩ | ⟨hev, hclean, a, b, c, segment, last, hpath, rfl⟩
    · exact ⟨hcolon, fun hev => absurd hev hplain⟩
    · exact ⟨hpath.firstPart hclean hslash ▸ hcolon, fun _ => hpath.idSegment ▸ hslash⟩
  · intro h op id hcall
    obtain ⟨hcolon, hsegment⟩ := h ⟨(op, id), hcall⟩
    rcases commandAware_ok hcall with
      ⟨rfl, hne, -⟩ | ⟨hev, hclean, a, b, c, segment, last, hpath, rfl⟩
    · exact guardTaskID_of_plain hcolon hne
    have hslash := hsegment hev
    rw [hpath.idSegment] at hslash
    have hfirst := hpath.firstPart hclean hslash
    rw [← hfirst]
    exact guardTaskID_of_plain hcolon (hfirst ▸ hpath.id_ne_nil hclean)

def getRequest (escapedPath : String) (path : Bytes)
    (decoded : unescape escapedPath.toList = some path)
    (under : taskPrefix <+: path) : Request where
  method := .get
  escapedPath := escapedPath.toList
  path := path
  decoded := decoded
  under := under
  idempotencyKey := ""
  body := fun _ => .error "EOF"

/-- The tool audit of a task is listed without any lookup by the guard. -/
theorem colon_path_unguarded :
    let req := getRequest "/api/v1/tasks/:t-2/audit" "/api/v1/tasks/:t-2/audit".toList
      (by decide) (by decide)
    commandAwareTaskMutations req = .ok (.listToolAudit, ":t-2".toList) ∧
      guardTaskID req = none ∧ ¬ Guarded req := by
  refine ⟨by decide, by decide, fun h => ?_⟩
  exact absurd ((guarded_iff_resolves _).mp h .listToolAudit ":t-2".toList (by decide)) (by decide)

theorem plain_path_guarded :
    Guarded (getRequest "/api/v1/tasks/t-1/evaluations" "/api/v1/tasks/t-1/evaluations".toList
      (by decide) (by decide)) := by
  refine (guarded_iff_plain _).mpr (fun _ => ⟨by decide, fun _ => by decide⟩)

end AiCloud.HttpApi
