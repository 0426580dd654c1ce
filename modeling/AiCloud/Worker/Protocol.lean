import AiCloud.Worker.Ledger

/-!
# The protocol of a worker run

Which request `Execute` makes after which history, and what its return means.
A worker invokes its target once, after an acknowledged start and, for a
mutation, after an acknowledged effect start. It closes an invoked mutation as
failed only when the target proved that nothing was applied.
-/
namespace AiCloud.Worker

open Lib Execution NodeLease Identity Prog List

structure Job where
  ctx : Context
  worker : PersistentWorker
  execution : Execution
  candidate : PreparedNode

variable (θ : Job)

def Job.mutation : Prop := isMutation θ.candidate.node.effect.effectClass

abbrev Job.claim : Coordinate :=
  .claim θ.execution.id θ.execution.planRef.revision θ.candidate.node.id θ.worker.workerID
    θ.worker.leaseTTL

/-- The node a run works on, if its caller has a scope. -/
def Job.node : Option NodeKey :=
  match scopedPrincipal θ.ctx with
  | .ok p => some (nodeKey p θ.execution.id θ.execution.planRef.revision θ.candidate.node.id)
  | .error _ => none

abbrev History := List (Sigma Answer)

variable (h : History)

def Acked (r : Coordinate) (x : r.Result) : Prop :=
  (⟨.coordinate r, .ok x⟩ : Sigma Answer) ∈ h

def Claimed (lease : NodeLease) : Prop := Acked h θ.claim lease

def Started (lease : NodeLease) : Prop :=
  ∃ binding attempt, Acked h (.startAttempt lease binding) attempt

def Invoked (result : InvocationResult) (err : Option InvokeError) : Prop :=
  ∃ execution node target, (⟨.invoke execution node target, (result, err)⟩ : Sigma Answer) ∈ h

/-- The target was not invoked, or it reported both NOT_APPLIED and an error. -/
def NotApplied : Prop :=
  (∀ result err, ¬ Invoked h result err) ∨
    ∃ result err, Invoked h result (some err) ∧ result.effectDisposition = .notApplied

/-- The request ends the attempt or invokes the target. -/
def Ends : Request → Prop
  | .coordinate (.complete ..) => True
  | .coordinate (.releaseBeforeEffect _) => True
  | .invoke .. => True
  | _ => False

def Open : Prop := ∀ e ∈ h, ¬ Ends e.1

def allowed : Request → Prop
  | .coordinate (.claim executionID planRevision nodeID owner leaseDuration) =>
    h = [] ∧ .claim executionID planRevision nodeID owner leaseDuration = θ.claim
  | .coordinate (.startAttempt lease binding) =>
    Claimed θ h lease ∧ ∃ reservationID, binding = bindingFor θ.candidate reservationID
  | .coordinate (.markEffectStarted lease) => Claimed θ h lease
  | .coordinate (.markEffectCommitted lease) => Claimed θ h lease
  | .coordinate (.releaseBeforeEffect lease) => Claimed θ h lease ∧ Open h
  | .coordinate (.complete lease terminal _) =>
    Claimed θ h lease ∧ (θ.mutation → terminal = .failed → NotApplied h)
  | .invoke execution node target =>
    (execution = θ.execution ∧ node = θ.candidate.node ∧ target = θ.candidate.target) ∧ Open h ∧
      ∃ lease, Claimed θ h lease ∧ Started h lease ∧
        (θ.mutation → Acked h (.markEffectStarted lease) ())
  | _ => True

/-- What a run that returns no error has been acknowledged. -/
def final (outcome : Outcome) : Prop :=
  outcome.2 = [] → ∃ lease, outcome.1.lease = some lease ∧ Claimed θ h lease ∧
    (∃ completion, Acked h (.complete lease .succeeded completion) ()) ∧
    (θ.mutation → Acked h (.markEffectCommitted lease) ())

variable {h : History} {e : Sigma Answer}

theorem Acked.mono {r : Coordinate} {x : r.Result}
    (ha : Acked h r x) : Acked (h ++ [e]) r x := mem_append_left _ ha

theorem Acked.last (h : History) (r : Coordinate) (x : r.Result) :
    Acked (h ++ [⟨.coordinate r, .ok x⟩]) r x := mem_concat_self

variable {lease : NodeLease}

theorem Started.mono (hs : Started h lease) : Started (h ++ [e]) lease := by
  obtain ⟨binding, attempt, ha⟩ := hs
  exact ⟨binding, attempt, ha.mono⟩

theorem Invoked.mono {result : InvocationResult} {err : Option InvokeError}
    (hi : Invoked h result err) : Invoked (h ++ [e]) result err := by
  obtain ⟨execution, node, target, hm⟩ := hi
  exact ⟨execution, node, target, mem_append_left _ hm⟩

theorem Open.not_invoked (ho : Open h) (result : InvocationResult)
    (err : Option InvokeError) : ¬ Invoked h result err := by
  rintro ⟨execution, node, target, hm⟩
  exact ho _ hm trivial

theorem open_nil : Open [] := forall_mem_nil _

variable {e : Sigma Answer}

theorem Open.snoc (ho : Open h) (he : ¬ Ends e.1) : Open (h ++ [e]) := by
  intro d hd
  rcases mem_append.mp hd with hd | hd
  · exact ho d hd
  · rw [mem_singleton.mp hd]
    exact he

theorem final_of_error (h : History) (result : WorkerExecutionResult) (e : WorkerError)
    (errs : Joined) : final θ h (result, e :: errs) := by
  intro hnil
  cases hnil

variable {result : WorkerExecutionResult} {θ : Job}

/-- A completion that was asked last decides whether the run returns an error. -/
theorem final_completed {completion : AttemptCompletion} {a : Except StoreError Unit}
    (hc : Claimed θ h lease) (hres : result.lease = some lease)
    (hm : θ.mutation → Acked h (.markEffectCommitted lease) ()) :
    final θ (h ++ [⟨.coordinate (.complete lease .succeeded completion), a⟩])
      (result, storeErr a) := by
  cases a with
  | error e => exact final_of_error θ _ result (.store e) []
  | ok u =>
    intro _
    exact ⟨lease, hres, hc.mono,
      ⟨completion, Acked.last h (.complete lease .succeeded completion) ()⟩,
      fun hmut => (hm hmut).mono⟩

theorem finishReadOnly_conforms {invokeErr : Option InvokeError} (hm : ¬ θ.mutation)
    (hc : Claimed θ h lease) (hres : result.lease = some lease) :
    Conforms (allowed θ) (final θ) h (finishReadOnly lease result invokeErr) := by
  cases invokeErr with
  | none =>
    refine conforms_request.mpr ⟨⟨hc, fun hmut => absurd hmut hm⟩, fun a => ?_⟩
    exact final_completed hc hres (fun hmut => absurd hmut hm)
  | some err =>
    refine conforms_request.mpr ⟨⟨hc, fun hmut => absurd hmut hm⟩, fun a => ?_⟩
    exact final_of_error θ _ result _ _

theorem finishMutation_conforms {invokeErr : Option InvokeError} (hc : Claimed θ h lease)
    (hres : result.lease = some lease) (hinv : Invoked h result.invocation invokeErr) :
    Conforms (allowed θ) (final θ) h (finishMutation lease θ.candidate result invokeErr) := by
  unfold finishMutation
  cases hd : result.invocation.effectDisposition with
  | committed =>
    refine conforms_request.mpr ⟨hc, fun a => ?_⟩
    cases a with
    | error e => exact final_of_error θ _ result _ _
    | ok u =>
      cases invokeErr with
      | some err => exact final_of_error θ _ result _ _
      | none =>
        refine conforms_request.mpr ⟨⟨hc.mono, fun _ hf => by cases hf⟩, fun a => ?_⟩
        exact final_completed hc.mono hres (fun _ => Acked.last h (.markEffectCommitted lease) ())
  | notApplied =>
    cases invokeErr with
    | none => exact final_of_error θ _ result _ _
    | some err =>
      refine conforms_request.mpr ⟨⟨hc, fun _ _ => ?_⟩, fun a => ?_⟩
      · exact Or.inr ⟨_, err, hinv, hd⟩
      · exact final_of_error θ _ result _ _
  | unknown => exact final_of_error θ _ result _ _
  | notApplicable => exact final_of_error θ _ result _ _
  | other text => exact final_of_error θ _ result _ _

section

variable {θ : Job} {lease : NodeLease} {reservation : BudgetReservation} (ho : Open h)
  (hc : Claimed θ h lease)

include ho hc

theorem invokeAndFinish_conforms {mutation : Bool} (hs : Started h lease)
    (hmut : mutation = true ↔ θ.mutation)
    (heff : θ.mutation → Acked h (.markEffectStarted lease) ()) : Conforms (allowed θ) (final θ) h
    (invokeAndFinish lease θ.execution θ.candidate reservation mutation) := by
  refine conforms_request.mpr ⟨⟨⟨rfl, rfl, rfl⟩, ho, lease, hc, hs, heff⟩, ?_⟩
  rintro ⟨invocation, invokeErr⟩
  have hinv : Invoked (h ++ [⟨.invoke θ.execution θ.candidate.node θ.candidate.target,
      (invocation, invokeErr)⟩]) invocation invokeErr :=
    ⟨_, _, _, mem_concat_self⟩
  refine conforms_request.mpr ⟨trivial, fun a => ?_⟩
  cases a with
  | error e => exact final_of_error θ _ _ _ _
  | ok u =>
    cases mutation with
    | true => exact finishMutation_conforms hc.mono.mono rfl hinv.mono
    | false =>
      have hm : ¬ θ.mutation := fun hm => Bool.noConfusion (hmut.mpr hm)
      exact finishReadOnly_conforms hm hc.mono.mono rfl

theorem runStarted_conforms (hs : Started h lease) : Conforms (allowed θ) (final θ) h
    (runStarted lease θ.execution θ.candidate reservation) := by
  unfold runStarted
  by_cases hm : isMutation θ.candidate.node.effect.effectClass
  · rw [if_pos hm]
    refine conforms_request.mpr ⟨hc, fun a => ?_⟩
    have hopen : Open (h ++ [⟨.coordinate (.markEffectStarted lease), a⟩]) := ho.snoc id
    cases a with
    | error e =>
      refine conforms_request.mpr ⟨trivial, fun settled => ?_⟩
      refine conforms_request.mpr ⟨⟨hc.mono.mono, fun _ _ => Or.inl ?_⟩, fun done => ?_⟩
      · exact (hopen.snoc id).not_invoked
      · exact final_of_error θ _ _ _ _
    | ok u =>
      exact invokeAndFinish_conforms hopen hc.mono hs.mono ⟨fun _ => hm, fun _ => rfl⟩
        (fun _ => Acked.last h (.markEffectStarted lease) ())
  · rw [if_neg hm]
    exact invokeAndFinish_conforms ho hc hs ⟨Bool.noConfusion, fun hmut => absurd hmut hm⟩
      (fun hmut => absurd hmut hm)

theorem startAndRun_conforms : Conforms (allowed θ) (final θ) h
    (startAndRun lease θ.execution θ.candidate reservation) := by
  refine conforms_request.mpr ⟨⟨hc, _, rfl⟩, fun a => ?_⟩
  cases a with
  | error e =>
    refine conforms_request.mpr ⟨trivial, fun released => ?_⟩
    refine conforms_request.mpr ⟨⟨hc.mono.mono, (ho.snoc id).snoc id⟩, fun cleanup => ?_⟩
    exact final_of_error θ _ _ _ _
  | ok attempt =>
    have hs : Started (h ++ [⟨.coordinate (.startAttempt lease
        (bindingFor θ.candidate reservation.id)), .ok attempt⟩]) lease :=
      ⟨_, attempt, Acked.last h _ attempt⟩
    exact runStarted_conforms (ho.snoc id) hc.mono hs

end

theorem execute_conforms (θ : Job) :
    Conforms (allowed θ) (final θ) [] (execute θ.worker θ.execution θ.candidate) := by
  unfold execute
  cases validate θ.worker θ.execution θ.candidate with
  | error e => exact final_of_error θ _ _ _ _
  | ok u =>
    refine conforms_request.mpr ⟨⟨rfl, rfl⟩, fun a => ?_⟩
    cases a with
    | error e => exact final_of_error θ _ _ _ _
    | ok lease =>
      have hc : Claimed θ ([] ++ [⟨.coordinate θ.claim, .ok lease⟩]) lease := Acked.last _ _ _
      have ho : Open ([] ++ [⟨.coordinate θ.claim, .ok lease⟩]) := open_nil.snoc id
      refine conforms_request.mpr ⟨trivial, fun reserved => ?_⟩
      cases reserved with
      | error e =>
        refine conforms_request.mpr ⟨⟨hc.mono, ho.snoc id⟩, fun cleanup => ?_⟩
        exact final_of_error θ _ _ _ _
      | ok reservation => exact startAndRun_conforms (ho.snoc id) hc.mono

theorem node_some {k : NodeKey} (h : θ.node = some k) : ∃ p, scopedPrincipal θ.ctx = .ok p ∧
    nodeKey p θ.execution.id θ.execution.planRef.revision θ.candidate.node.id = k := by
  unfold Job.node at h
  split at h
  · rename_i p hp
    exact ⟨p, hp, Option.some.inj h⟩
  · cases h

section

variable {calls : List Call} {ctx : Nat → Option Context} {hist : Histories} {i j : Nat}
  {θ θ' : Job} {k : NodeKey} {lease lease' : NodeLease}

theorem claimedAt_of (hi : ctx i = some θ.ctx) (hk : θ.node = some k)
    (hc : Claimed θ (hist i) lease) : ClaimedAt ctx hist i k lease := by
  obtain ⟨p, hp, hkey⟩ := node_some hk
  exact ⟨θ.ctx, p, _, _, _, _, _, hi, hp, hkey, hc⟩

theorem Ledger.acked_event (hl : Ledger calls ctx hist) (hi : ctx i = some θ.ctx)
    (hk : θ.node = some k) (hc : Claimed θ (hist i) lease) {r : Coordinate} {x : r.Result}
    (ha : Acked (hist i) r x) (hr : ∀ p, r.key p = leaseKey p lease) :
    ∃ now, r.event now x ∈ eventsOf calls k := by
  obtain ⟨c, p, now, hctx, hp, he⟩ := hl.recorded i r x ha
  have hkey := hl.claim_key (claimedAt_of hi hk hc) hctx hp
  rw [hr p, hkey] at he
  exact ⟨now, he⟩

/-- Leases of one node with the same fence belong to one run. -/
theorem Ledger.same_run (hl : Ledger calls ctx hist) (hi : ctx i = some θ.ctx)
    (hj : ctx j = some θ'.ctx) (hk : θ.node = some k) (hk' : θ'.node = some k)
    (hc : Claimed θ (hist i) lease) (hc' : Claimed θ' (hist j) lease')
    (hf : lease.fence = lease'.fence) : i = j :=
  (hl.distinct i j k lease lease' (claimedAt_of hi hk hc) (claimedAt_of hj hk' hc') hf).1

theorem Ledger.claimed_node (hl : Ledger calls ctx hist) (hi : ctx i = some θ.ctx)
    (hc : Claimed θ (hist i) lease) :
    ∃ p k, scopedPrincipal θ.ctx = .ok p ∧ θ.node = some k ∧ leaseKey p lease = k := by
  obtain ⟨c, p, now, hctx, hp, _⟩ := hl.recorded i θ.claim lease hc
  obtain rfl : θ.ctx = c := Option.some.inj (hi.symm.trans hctx)
  have hk : θ.node =
      some (nodeKey p θ.execution.id θ.execution.planRef.revision θ.candidate.node.id) := by
    unfold Job.node
    rw [hp]
  exact ⟨p, _, hp, hk, hl.claim_key (claimedAt_of hi hk hc) hi hp⟩

end

def isInvoke : Request → Bool
  | .invoke .. => true
  | _ => false

section

variable (hl : Lawful (allowed θ) h)

include hl

theorem ends_once {pre post : History} (hh : h = pre ++ e :: post)
    (hi : isInvoke e.1 = true) : ∀ d ∈ pre, ¬ Ends d.1 := by
  have ha := hl pre e post hh
  obtain ⟨q, a⟩ := e
  cases q <;> cases hi
  exact ha.2.1

theorem invokes_once : h.countP (fun e => isInvoke e.1) ≤ 1 := by
  induction h using reverseRecOn with
  | nil => simp
  | append_singleton h e ih =>
    rw [countP_append]
    by_cases he : isInvoke e.1
    · have hzero : h.countP (fun e => isInvoke e.1) = 0 := by
        rw [countP_eq_zero]
        intro d hd hinv
        have hopen := ends_once hl rfl he d hd
        obtain ⟨q, a⟩ := d
        cases q <;> cases hinv
        exact hopen trivial
      rw [hzero]
      simp [he]
    · simpa [he] using ih hl.init.1

/-- An invocation belongs to a run with an acknowledged start and, for a
mutation, an acknowledged effect start. -/
theorem invoke_lease (he : e ∈ h) (hi : isInvoke e.1 = true) :
    ∃ lease, Claimed θ h lease ∧ Started h lease ∧
      (θ.mutation → Acked h (.markEffectStarted lease) ()) := by
  obtain ⟨pre, post, rfl, ha⟩ := hl.mem he
  obtain ⟨q, a⟩ := e
  cases q <;> cases hi
  obtain ⟨_, _, lease, hc, ⟨binding, attempt, hs⟩, heff⟩ := ha
  exact ⟨lease, mem_append_left _ hc, ⟨binding, attempt, mem_append_left _ hs⟩,
    fun hm => mem_append_left _ (heff hm)⟩

theorem invoke_keeps {d : Sigma Answer} (he : e ∈ h)
    (hi : isInvoke e.1 = true) (hd : d ∈ h) (hr : d.1 = .coordinate (.releaseBeforeEffect lease)) :
    False := by
  obtain ⟨pre, post, rfl, ha⟩ := hl.mem hd
  rw [hr] at ha
  have hends : Ends e.1 := by
    obtain ⟨q, a⟩ := e
    cases q <;> cases hi
    trivial
  rcases mem_append.mp he with hpre | hpost
  · exact ha.2 e hpre hends
  rcases mem_cons.mp hpost with rfl | hpost
  · rw [hr] at hi
    cases hi
  · obtain ⟨mid, rest, rfl⟩ := append_of_mem hpost
    have hopen := ends_once hl (show _ = (pre ++ d :: mid) ++ e :: rest by simp) hi d (by simp)
    rw [hr] at hopen
    exact hopen trivial

end

end AiCloud.Worker
