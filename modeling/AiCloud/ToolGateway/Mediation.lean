import AiCloud.ToolGateway.Gateway

/-!
# Complete mediation

Whatever the dependencies answer, the sandbox is called only behind the policy, the
approval and the plan, and no credential outlives the call it was issued for.
-/
namespace AiCloud.ToolGateway

open Lib Execution Prog List

abbrev History := List (Sigma GatewayAnswer)

/-- An approval was checked for exactly this request. Whichever store gave the answer, and
at whatever time, it holds the approval under that id, valid for this request then. -/
def Approved (request : Request) (h : History) : Prop :=
  ∃ record, (⟨.validateApproval request.approvalID request.taskID request.toolID
      request.action, .ok record⟩ : Sigma GatewayAnswer) ∈ h ∧
    ∀ (store : ApprovalStore) (now : Time), store.validate now request.approvalID request.taskID
        request.toolID request.action = .ok record →
      store.records request.approvalID = some record ∧
        record.ValidFor request.taskID request.toolID request.action now

/-- What has to stand in the history when the sandbox is called. -/
structure Mediated (s : Service) (request : Request) (h : History) (run : Sandbox.Request) :
    Prop where
  policy : ∃ decision : Decision, (⟨.evaluate request.agentID request.action request.toolID,
    .ok decision⟩ : Sigma GatewayAnswer) ∈ h ∧ decision.allowed = true ∧
      (decision.requiresApproval = true → Approved request h)
  planned : ∃ definition plan,
    (⟨.getTool request.toolID, .ok definition⟩ : Sigma GatewayAnswer) ∈ h ∧
    Sandbox.Planner.plan s.casing (sandboxRequest request definition) = .ok plan ∧
      run = { sandboxRequest request definition with credentialLeaseID := run.credentialLeaseID }

def Issued (h : History) (lease : Lease) : Prop :=
  ∃ request, (⟨.issue request, .ok lease⟩ : Sigma GatewayAnswer) ∈ h

/-- The sandbox is called behind all checks, and the next call after a lease was issued
is the sandbox call with it. -/
def Mediates (s : Service) (request : Request) (h : History) (q : GatewayRequest) : Prop :=
  (∀ run, q = .execute run → Mediated s request h run) ∧
    ∀ credential lease, h.getLast? = some ⟨.issue credential, .ok lease⟩ →
      ∃ run, q = .execute run ∧ run.credentialLeaseID = lease.id

/-- Every lease went to the sandbox and was revoked. -/
def CleanedUp (h : History) : Prop :=
  ∀ lease, Issued h lease → (∃ run answer, (⟨.execute run, answer⟩ : Sigma GatewayAnswer) ∈ h ∧
      run.credentialLeaseID = lease.id) ∧
    ∃ answer, (⟨.revoke lease.id, answer⟩ : Sigma GatewayAnswer) ∈ h

def NoLease (h : History) : Prop := ∀ lease, ¬ Issued h lease

theorem issued_append {h h' : History} {lease : Lease} :
    Issued (h ++ h') lease ↔ Issued h lease ∨ Issued h' lease := by
  simp only [Issued, mem_append, exists_or]

def Issueless (e : Sigma GatewayAnswer) : Prop :=
  ∀ credential lease, e ≠ ⟨.issue credential, .ok lease⟩

variable {h : History}

theorem noLease_of (hall : ∀ e ∈ h, Issueless e) : NoLease h := by
  rintro lease ⟨credential, hmem⟩
  exact hall _ hmem credential lease rfl

theorem NoLease.snoc {e : Sigma GatewayAnswer} (hn : NoLease h) (he : Issueless e) :
    NoLease (h ++ [e]) := by
  intro lease hi
  rcases issued_append.mp hi with hi | hi
  · exact hn lease hi
  · exact noLease_of (fun x hx => mem_singleton.mp hx ▸ he) lease hi

theorem cleanedUp_of_noLease (hn : NoLease h) : CleanedUp h :=
  fun lease hi => absurd hi (hn lease)

theorem issueless_of_request {q : GatewayRequest} {a : GatewayAnswer q}
    (hq : ∀ credential, q ≠ .issue credential) : Issueless ⟨q, a⟩ := by
  intro credential lease h
  exact hq credential (congrArg Sigma.fst h)

/-- Behind an entry that issued no lease every request but the sandbox call is free. -/
theorem mediates_other {s : Service} {request : Request} {q : GatewayRequest}
    (hlast : ∀ e, h.getLast? = some e → Issueless e) (hq : ∀ run, q ≠ .execute run) :
    Mediates s request h q :=
  ⟨fun run h => absurd h (hq run),
    fun credential lease h => absurd rfl (hlast _ h credential lease)⟩

theorem last_snoc {e : Sigma GatewayAnswer} (he : Issueless e) :
    ∀ e', (h ++ [e]).getLast? = some e' → Issueless e' := by
  intro e' h'
  rw [getLast?_concat] at h'
  cases h'
  exact he

section

variable {s : Service} {request : Request} {definition : Definition} {decision : Decision}

theorem appendAudit_conforms {status reason approvalID leaseID : String} {result : Option Result}
    (hlast : ∀ e, h.getLast? = some e → Issueless e) : Conforms (Mediates s request)
    (fun h' _ => ∃ extra, h' = h ++ extra ∧ (∀ e ∈ extra, Issueless e) ∧
      ∀ e, h'.getLast? = some e → Issueless e) h
    (s.appendAudit request definition decision status reason approvalID leaseID result) := by
  unfold Service.appendAudit
  refine conforms_ite (fun _ => ?_) (fun _ => ⟨[], (append_nil h).symm, by simp, hlast⟩)
  refine ⟨mediates_other hlast (fun run => nofun), fun now => ?_⟩
  have hnow : Issueless ⟨.now, now⟩ := issueless_of_request (fun credential => nofun)
  refine ⟨mediates_other (last_snoc hnow) (fun run => nofun), fun answer => ?_⟩
  have hevent : ∀ event, Issueless ⟨.appendAudit event, answer⟩ := fun event =>
    issueless_of_request (fun credential => nofun)
  refine ⟨[⟨.now, now⟩, ⟨.appendAudit _, answer⟩], ?_, ?_, last_snoc (hevent _)⟩
  · rw [append_assoc]
    rfl
  · intro e he
    simp only [mem_cons, not_mem_nil, or_false] at he
    rcases he with rfl | rfl
    · exact hnow
    · exact hevent _

/-- After the sandbox call the lease has been passed to the sandbox and nothing else was
issued. -/
theorem runSandbox_conforms {credential : CredentialRequest} {lease : Lease}
    (hmediated : Mediated s request h
      { sandboxRequest request definition with credentialLeaseID := lease.id })
    (hlast : h.getLast? = some ⟨.issue credential, .ok lease⟩)
    (hone : ∀ lease', Issued h lease' → lease' = lease) :
    Conforms (Mediates s request) (fun h' _ => (∀ lease', Issued h' lease' → lease' = lease) ∧
        (∃ run answer, (⟨.execute run, answer⟩ : Sigma GatewayAnswer) ∈ h' ∧
          run.credentialLeaseID = lease.id) ∧ ∀ e, h'.getLast? = some e → Issueless e) h
      (s.runSandbox request definition decision lease) := by
  have hallowed : Mediates s request h (.execute
      { sandboxRequest request definition with credentialLeaseID := lease.id }) := by
    refine ⟨?_, ?_⟩
    · rintro run hrun
      cases hrun
      exact hmediated
    · intro credential' lease' h'
      rw [hlast] at h'
      cases h'
      exact ⟨_, rfl, rfl⟩
  -- Both answers of the sandbox end in the audit, behind the same call.
  have hafter : ∀ (answer : Except String SandboxResult) (status reason : String)
      (result : Option Result) (r : Result × Option GatewayError),
      Conforms (Mediates s request)
        (fun h' _ => (∀ lease', Issued h' lease' → lease' = lease) ∧
          (∃ run answer, (⟨.execute run, answer⟩ : Sigma GatewayAnswer) ∈ h' ∧
            run.credentialLeaseID = lease.id) ∧ ∀ e, h'.getLast? = some e → Issueless e)
        (h ++ [⟨.execute { sandboxRequest request definition with
          credentialLeaseID := lease.id }, answer⟩])
        (s.appendAudit request definition decision status reason request.approvalID lease.id
          result >>= fun _ => pure r) := by
    intro answer status reason result r
    have hcall : Issueless ⟨.execute { sandboxRequest request definition with
        credentialLeaseID := lease.id }, answer⟩ := issueless_of_request (fun _ => nofun)
    refine conforms_bind (appendAudit_conforms (last_snoc hcall)) ?_
    rintro h' _ ⟨extra, rfl, hextra, hlast'⟩
    refine ⟨?_, ⟨{ sandboxRequest request definition with credentialLeaseID := lease.id }, answer,
      ?_, rfl⟩, hlast'⟩
    · intro lease' hi
      rcases issued_append.mp hi with hi | hi
      · rcases issued_append.mp hi with hi | hi
        · exact hone lease' hi
        · exact absurd hi (noLease_of (fun e he => mem_singleton.mp he ▸ hcall) lease')
      · exact absurd hi (noLease_of hextra lease')
    · simp
  refine ⟨hallowed, fun answer => ?_⟩
  cases answer with
  | error e => exact hafter (.error e) _ _ _ _
  | ok sandboxResult => exact hafter (.ok sandboxResult) _ _ _ _

theorem refuse_conforms (hn : NoLease h)
    (hlast : ∀ e, h.getLast? = some e → Issueless e) {status reason approvalID leaseID : String}
    {r : Result × Option GatewayError} : Conforms (Mediates s request) (fun h' _ => CleanedUp h') h
    (s.appendAudit request definition decision status reason approvalID leaseID none >>=
      fun _ => pure r) := by
  refine conforms_bind (appendAudit_conforms hlast) ?_
  rintro h' _ ⟨extra, rfl, hextra, _⟩
  refine cleanedUp_of_noLease (fun lease hi => ?_)
  rcases issued_append.mp hi with hi | hi
  · exact hn lease hi
  · exact noLease_of hextra lease hi

/-- The store's answer is a record that approves this request. -/
theorem approved_of_checked {record : ApprovalRecord}
    (hchecked : (⟨.validateApproval request.approvalID request.taskID request.toolID
      request.action, .ok record⟩ : Sigma GatewayAnswer) ∈ h) : Approved request h :=
  ⟨record, hchecked, fun _ _ hanswer => ApprovalStore.validate_ok hanswer⟩

/-- Behind an allowed decision, and an approval where it asks for one, the rest of the
program is mediated and cleans up. -/
theorem launch_conforms (hn : NoLease h) (hlast : ∀ e, h.getLast? = some e → Issueless e)
    (htool : (⟨.getTool request.toolID, .ok definition⟩ : Sigma GatewayAnswer) ∈ h)
    (hpolicy : (⟨.evaluate request.agentID request.action request.toolID, .ok decision⟩ :
      Sigma GatewayAnswer) ∈ h) (hallowed : decision.allowed = true)
    (happroved : decision.requiresApproval = true → ∃ record,
      (⟨.validateApproval request.approvalID request.taskID request.toolID request.action,
        .ok record⟩ : Sigma GatewayAnswer) ∈ h) :
    Conforms (Mediates s request) (fun h' _ => CleanedUp h') h
      (s.launch request definition decision) := by
  unfold Service.launch
  cases hplan : Sandbox.Planner.plan s.casing (sandboxRequest request definition) with
  | error e => exact refuse_conforms hn hlast
  | ok plan =>
    refine ⟨mediates_other hlast (fun run => nofun), fun answer => ?_⟩
    cases answer with
    | error e =>
      refine cleanedUp_of_noLease (hn.snoc ?_)
      intro credential lease heq
      cases heq
    | ok lease =>
      have hone : ∀ lease', Issued (h ++ [⟨.issue ⟨request.taskID, request.toolID,
          definition.permission, definition.credentialTTL⟩, .ok lease⟩]) lease' →
          lease' = lease := by
        intro lease' hi
        rcases issued_append.mp hi with hi | ⟨credential, hmem⟩
        · exact absurd hi (hn lease')
        cases mem_singleton.mp hmem
        rfl
      change Conforms _ _ _ (s.runSandbox request definition decision lease >>= _)
      refine conforms_bind (runSandbox_conforms ⟨?_, ?_⟩ getLast?_concat hone) ?_
      · refine ⟨decision, mem_append_left _ hpolicy, hallowed, fun hrequired => ?_⟩
        obtain ⟨record, hrecord⟩ := happroved hrequired
        exact approved_of_checked (mem_append_left _ hrecord)
      · exact ⟨definition, plan, mem_append_left _ htool, hplan, rfl⟩
      · rintro h' answer ⟨hone', hrun, hlast'⟩
        refine ⟨mediates_other hlast' (fun run => nofun), fun revoked => ?_⟩
        intro lease' hi
        have hrevoke : Issueless ⟨.revoke lease.id, revoked⟩ :=
          issueless_of_request (fun _ => nofun)
        have hsame : lease' = lease := by
          rcases issued_append.mp hi with hi | hi
          · exact hone' lease' hi
          · exact absurd hi (noLease_of (fun e he => mem_singleton.mp he ▸ hrevoke) lease')
        rw [hsame]
        obtain ⟨run, ranswer, hmem, hid⟩ := hrun
        exact ⟨⟨run, ranswer, mem_append_left _ hmem, hid⟩, revoked, by simp⟩

end

/-- For every request and whatever the dependencies answer: the sandbox is called only if
the policy allowed the request, a required approval was valid for it and the plan was
accepted; a lease is issued only for the sandbox call that follows at once; and every
lease has been revoked when the gateway returns. -/
theorem execute_mediated (s : Service) (request : Request) :
    Conforms (Mediates s request) (fun h _ => CleanedUp h) [] (s.execute request) := by
  have hnone : NoLease [] := noLease_of (fun e he => nomatch he)
  unfold Service.execute
  refine conforms_ite (fun _ => cleanedUp_of_noLease hnone) (fun _ => ?_)
  refine conforms_ite (fun _ => cleanedUp_of_noLease hnone) (fun _ => ?_)
  refine ⟨mediates_other (fun e he => nomatch he) (fun run => nofun), fun tool => ?_⟩
  have htool : Issueless ⟨.getTool request.toolID, tool⟩ := issueless_of_request (fun _ => nofun)
  have hn₁ := hnone.snoc htool
  cases tool with
  | error e => exact cleanedUp_of_noLease hn₁
  | ok definition =>
    refine ⟨mediates_other (last_snoc htool) (fun run => nofun), fun evaluated => ?_⟩
    have hevaluated : Issueless ⟨.evaluate request.agentID request.action request.toolID,
      evaluated⟩ := issueless_of_request (fun _ => nofun)
    have hn₂ := hn₁.snoc hevaluated
    cases evaluated with
    | error e => exact cleanedUp_of_noLease hn₂
    | ok decision =>
      have hlast₂ := last_snoc (h := [] ++ [⟨.getTool request.toolID, .ok definition⟩]) hevaluated
      refine conforms_ite (fun _ => refuse_conforms hn₂ hlast₂) (fun hallowed => ?_)
      have hallowed : decision.allowed = true := Bool.not_eq_false _ ▸ hallowed
      refine conforms_ite (fun hfree => ?_) (fun _ => ?_)
      · exact launch_conforms hn₂ hlast₂ (by simp) (by simp) hallowed
          (fun hrequired => absurd hrequired (by simp [hfree]))
      refine conforms_ite (fun _ => refuse_conforms hn₂ hlast₂) (fun _ => ?_)
      refine ⟨mediates_other hlast₂ (fun run => nofun), fun approval => ?_⟩
      have happroval : Issueless ⟨.validateApproval request.approvalID request.taskID
        request.toolID request.action, approval⟩ := issueless_of_request (fun _ => nofun)
      have hn₃ := hn₂.snoc happroval
      cases approval with
      | error e => exact refuse_conforms hn₃ (last_snoc happroval)
      | ok record =>
        exact launch_conforms hn₃ (last_snoc happroval) (by simp) (by simp) hallowed
          (fun _ => ⟨record, by simp⟩)

end AiCloud.ToolGateway
