import AiCloud.Execution.Plan
import AiCloud.Lib.Program
import AiCloud.Sandbox.Isolation

/-!
# The tool gateway

`Service.Execute` is a program that asks its collaborators and goes on with whatever they
answer; the deferred `Revoke` is asked on every way out after a lease was issued. The map
of the approval store is the function that looks an id up.
-/
namespace AiCloud.ToolGateway

open Lib Execution

structure ApprovalRecord where
  (id taskID toolID action approvedBy : String)
  (approvedAt expiresAt : Time)
  revoked : Bool

inductive ApprovalError
  | notFound
  | store (text : String)

structure ApprovalStore where
  records : String → Option ApprovalRecord

/-- The record stands for an approval of exactly this action, at this time. -/
structure ApprovalRecord.ValidFor (record : ApprovalRecord) (taskID toolID action : String)
    (now : Time) : Prop where
  task : record.taskID = taskID
  tool : record.toolID = toolID
  action : record.action = action
  unrevoked : record.revoked = false
  unexpired : now < record.expiresAt

def ApprovalStore.validate (s : ApprovalStore) (now : Time)
    (approvalID taskID toolID action : String) : Except ApprovalError ApprovalRecord :=
  match s.records approvalID with
  | none => .error .notFound
  | some record =>
    if record.revoked = true ∨ record.taskID ≠ taskID ∨ record.toolID ≠ toolID ∨
        record.action ≠ action ∨ ¬ now < record.expiresAt then .error .notFound
    else .ok record

theorem ApprovalStore.validate_ok {s : ApprovalStore} {now : Time}
    {approvalID taskID toolID action : String} {record : ApprovalRecord}
    (h : s.validate now approvalID taskID toolID action = .ok record) :
    s.records approvalID = some record ∧ record.ValidFor taskID toolID action now := by
  unfold ApprovalStore.validate at h
  split at h
  · cases h
  rename_i found hfound
  split at h
  · cases h
  rename_i hvalid
  cases h
  simp only [not_or, not_not, Bool.not_eq_true] at hvalid
  obtain ⟨hrevoked, htask, htool, haction, hexpires⟩ := hvalid
  exact ⟨hfound, htask, htool, haction, hrevoked, hexpires⟩

structure CredentialRequest where
  (taskID toolID permission : String)
  ttl : Duration

structure Lease where
  (id taskID toolID permission secretRef : String)
  (issuedAt expiresAt : Time)
  revoked : Bool

inductive BrokerError
  | invalidLease
  | broker (text : String)

structure Definition where
  (id image : String)
  command : List String
  permission : String
  credentialTTL : Duration
  (cpu memory : String)
  timeout : Int
  networkMode : Sandbox.NetworkMode
  allowedHosts : List String
  workspaceWrite : Bool

structure Request where
  (taskID traceID agentID toolID action : String)
  arguments : List String
  environment : List (String × String)
  (approvalID workspacePath : String)

structure Decision where
  (allowed requiresApproval : Bool)
  (reason policyVersion matchedRule : String)

/-- What the gateway reads of a sandbox result, and the rest of it. -/
structure SandboxResult where
  (status rest : String)

structure Result where
  toolID : String
  policy : Option Decision
  (approvalID credentialID : String)
  sandboxResult : Option SandboxResult

def noResult : Result := ⟨"", none, "", "", none⟩

structure AuditEvent where
  (id taskID traceID agentID toolID action : String)
  policyAllowed : Bool
  (policyVersion matchedRule approvalID credentialLease inputDigest resultDigest status : String)
  reason : String
  createdAt : Time

inductive GatewayError
  | invalidRequest
  | incomplete
  | denied
  | approvalRequired
  | sandbox (error : Sandbox.SandboxError)
  | dependency (text : String)

inductive GatewayRequest
  | getTool (id : String)
  | evaluate (subject action resource : String)
  | validateApproval (approvalID taskID toolID action : String)
  | issue (request : CredentialRequest)
  | revoke (leaseID : String)
  | execute (request : Sandbox.Request)
  | now
  | appendAudit (event : AuditEvent)

/-- Any dependency may fail with any error. -/
def GatewayAnswer : GatewayRequest → Type
  | .getTool _ => Except String Definition
  | .evaluate _ _ _ => Except String Decision
  | .validateApproval _ _ _ _ => Except ApprovalError ApprovalRecord
  | .issue _ => Except String Lease
  | .revoke _ => Except BrokerError Unit
  | .execute _ => Except String SandboxResult
  | .now => Time
  | .appendAudit _ => Except String Unit

abbrev GatewayProg := Prog GatewayRequest GatewayAnswer

def ask (q : GatewayRequest) : GatewayProg (GatewayAnswer q) := Prog.request q

/-- How the service was put together, and what it uses of the language. -/
structure Service where
  (complete audited : Bool)
  casing : Sandbox.Casing
  unixNano : Time → Int
  digestRequest : Request → String
  digestResult : Result → String

variable (s : Service) (request : Request) (definition : Definition) (decision : Decision)

def Service.appendAudit (status reason approvalID leaseID : String) (result : Option Result) :
    GatewayProg Unit :=
  if s.audited then do
    let now ← ask .now
    let _ ← ask (.appendAudit
      { id := "audit-" ++ toString (s.unixNano now)
        taskID := request.taskID
        traceID := request.traceID
        agentID := request.agentID
        toolID := definition.id
        action := request.action
        policyAllowed := decision.allowed
        policyVersion := decision.policyVersion
        matchedRule := decision.matchedRule
        approvalID := approvalID
        credentialLease := leaseID
        inputDigest := s.digestRequest request
        resultDigest := (result.map s.digestResult).getD ""
        status := status
        reason := reason
        createdAt := now })
    pure ()
  else pure ()

def sandboxRequest : Sandbox.Request where
  taskID := request.taskID
  traceID := request.traceID
  toolID := request.toolID
  image := definition.image
  command := definition.command ++ request.arguments
  environment := request.environment
  credentialLeaseID := ""
  limits :=
    { cpu := definition.cpu
      memory := definition.memory
      timeout := definition.timeout
      networkMode := definition.networkMode
      allowedHosts := definition.allowedHosts
      readOnlyRootFS := true
      workspacePath := request.workspacePath
      workspaceWrite := definition.workspaceWrite }

/-- The call of the sandbox and its entry in the audit. -/
def Service.runSandbox (lease : Lease) : GatewayProg (Result × Option GatewayError) := do
  let answer : Except String SandboxResult ← ask (.execute
    { sandboxRequest request definition with credentialLeaseID := lease.id })
  match answer with
  | .error e =>
    s.appendAudit request definition decision "FAILED" e request.approvalID lease.id none
    pure (noResult, some (.dependency e))
  | .ok sandboxResult =>
    let result : Result := ⟨request.toolID, some decision, request.approvalID, lease.id,
      some sandboxResult⟩
    s.appendAudit request definition decision sandboxResult.status "" request.approvalID lease.id
      (some result)
    pure (result, none)

/-- The part after the policy and the approval. -/
def Service.launch : GatewayProg (Result × Option GatewayError) :=
  match Sandbox.Planner.plan s.casing (sandboxRequest request definition) with
  | .error e => do
    s.appendAudit request definition decision "DENIED" e.text request.approvalID "" none
    pure (noResult, some (.sandbox e))
  | .ok _ => do
    let issued : Except String Lease ← ask (.issue
      ⟨request.taskID, request.toolID, definition.permission, definition.credentialTTL⟩)
    match issued with
    | .error e => pure (noResult, some (.dependency e))
    | .ok lease =>
      let answer ← s.runSandbox request definition decision lease
      -- The deferred call; its error is dropped.
      let _ ← ask (.revoke lease.id)
      pure answer

def Service.execute : GatewayProg (Result × Option GatewayError) :=
  if request.taskID = "" ∨ request.traceID = "" ∨ request.agentID = "" ∨ request.toolID = "" ∨
      request.action = "" then pure (noResult, some .invalidRequest)
  else if s.complete = false then pure (noResult, some .incomplete)
  else do
    let tool : Except String Definition ← ask (.getTool request.toolID)
    match tool with
    | .error e => pure (noResult, some (.dependency e))
    | .ok definition =>
      let evaluated : Except String Decision ←
        ask (.evaluate request.agentID request.action request.toolID)
      match evaluated with
      | .error e => pure (noResult, some (.dependency e))
      | .ok decision =>
        let refused : Result := { noResult with toolID := request.toolID, policy := some decision }
        if decision.allowed = false then do
          s.appendAudit request definition decision "DENIED" decision.reason "" "" none
          pure (refused, some .denied)
        else if decision.requiresApproval = false then s.launch request definition decision
        else if request.approvalID = "" then do
          s.appendAudit request definition decision "WAITING_APPROVAL" "approval is required" "" ""
            none
          pure (refused, some .approvalRequired)
        else do
          let approval : Except ApprovalError ApprovalRecord ← ask
            (.validateApproval request.approvalID request.taskID request.toolID request.action)
          match approval with
          | .error _ =>
            s.appendAudit request definition decision "DENIED" "approval is invalid" "" "" none
            pure (refused, some .approvalRequired)
          | .ok _ => s.launch request definition decision

end AiCloud.ToolGateway
