import AiCloud.Budget.Ledger
import AiCloud.Worker.Safety

/-!
# A worker run and its reservation

`Execute` reserves once, invokes its target under the open reservation, and
after that it settles but never releases.
-/
namespace AiCloud.Budget

open Lib Execution Prog System List
open Worker (Job Request Answer History isInvoke actualBudgetForInvocation)

/-- Where a run is with its reservation. -/
inductive Stage
  | idle
  | held (id : String)
  | settled (actual : BudgetEstimate)
  | released

def Stage.next : Stage → Sigma Answer → Stage
  | _, ⟨.reserve .., .ok reservation⟩ => .held (Worker.BudgetReservation.id reservation)
  | _, ⟨.settle _ actual, .ok _⟩ => .settled actual
  | _, ⟨.release _, .ok _⟩ => .released
  | stage, _ => stage

variable (h : History)

def stage : Stage := h.foldl Stage.next .idle

theorem stage_snoc (e : Sigma Answer) : stage (h ++ [e]) = (stage h).next e := by
  simp [stage]

def invoked : Nat := h.countP (fun e => isInvoke e.1)

theorem invoked_snoc {e : Sigma Answer} (he : isInvoke e.1 = false) :
    invoked (h ++ [e]) = invoked h := by
  simp [invoked, he]

/-- What a run settles: its invocation, or the attempt whose effect was not
marked as started. -/
def Settles (θ : Job) (h : History) (actual : BudgetEstimate) : Prop :=
  (invoked h = 0 ∧ actual = ⟨0, 1, 0, 0⟩) ∨
    ∃ usage, actual = actualBudgetForInvocation θ.candidate.target usage

def allowed (θ : Job) (h : History) : Request → Prop
  | .reserve _ _ _ estimate => stage h = .idle ∧ invoked h = 0 ∧ estimate = θ.candidate.estimate
  | .settle id actual => stage h = .held id ∧ Settles θ h actual
  | .release id => stage h = .held id ∧ invoked h = 0
  | .invoke _ _ target => target = θ.candidate.target ∧ invoked h = 0 ∧ ∃ id, stage h = .held id
  | .coordinate _ => True

abbrev Follows (θ : Job) (h : History) (p : Worker.WorkerProg) : Prop :=
  Conforms (allowed θ) (fun _ _ => True) h p

variable {θ : Job} {h : History} {lease : NodeLease} {result : Worker.WorkerExecutionResult}
  {invokeErr : Option Worker.InvokeError} {reservation : Worker.BudgetReservation}

theorem finishReadOnly_follows : Follows θ h (Worker.finishReadOnly lease result invokeErr) := by
  unfold Worker.finishReadOnly
  split <;> exact conforms_request.mpr ⟨trivial, fun _ => trivial⟩

theorem finishMutation_follows :
    Follows θ h (Worker.finishMutation lease θ.candidate result invokeErr) := by
  unfold Worker.finishMutation
  split
  · refine conforms_request.mpr ⟨trivial, fun a => ?_⟩
    cases a with
    | error e => trivial
    | ok u =>
      cases invokeErr with
      | some err => trivial
      | none => exact conforms_request.mpr ⟨trivial, fun _ => trivial⟩
  · cases invokeErr with
    | none => trivial
    | some err => exact conforms_request.mpr ⟨trivial, fun _ => trivial⟩
  · trivial
  · trivial
  · trivial

section

variable (hs : stage h = .held reservation.id)

include hs

theorem invokeAndFinish_follows {mutation : Bool} (hi : invoked h = 0) : Follows θ h
    (Worker.invokeAndFinish lease θ.execution θ.candidate reservation mutation) := by
  refine conforms_request.mpr ⟨⟨rfl, hi, _, hs⟩, ?_⟩
  rintro ⟨invocation, invokeErr⟩
  have hstage : stage (h ++ [⟨.invoke θ.execution θ.candidate.node θ.candidate.target,
      (invocation, invokeErr)⟩]) = .held reservation.id := (stage_snoc h _).trans hs
  refine conforms_request.mpr ⟨⟨hstage, .inr ⟨_, rfl⟩⟩, fun a => ?_⟩
  cases a with
  | error e => trivial
  | ok u =>
    cases mutation with
    | true => exact finishMutation_follows
    | false => exact finishReadOnly_follows

theorem runStarted_follows (hi : invoked h = 0) :
    Follows θ h (Worker.runStarted lease θ.execution θ.candidate reservation) := by
  unfold Worker.runStarted
  split
  · refine conforms_request.mpr ⟨trivial, fun a => ?_⟩
    have hstage : stage (h ++ [⟨.coordinate (.markEffectStarted lease), a⟩]) =
        .held reservation.id := (stage_snoc h _).trans hs
    have hinvoked : invoked (h ++ [⟨.coordinate (.markEffectStarted lease), a⟩]) = 0 :=
      (invoked_snoc h rfl).trans hi
    cases a with
    | error e =>
      refine conforms_request.mpr ⟨⟨hstage, .inl ⟨hinvoked, rfl⟩⟩, fun settled => ?_⟩
      exact conforms_request.mpr ⟨trivial, fun _ => trivial⟩
    | ok u => exact invokeAndFinish_follows hstage hinvoked
  · exact invokeAndFinish_follows hs hi

theorem startAndRun_follows (hi : invoked h = 0) :
    Follows θ h (Worker.startAndRun lease θ.execution θ.candidate reservation) := by
  refine conforms_request.mpr ⟨trivial, fun a => ?_⟩
  have hstage : stage (h ++ [⟨.coordinate (.startAttempt lease
      (Worker.bindingFor θ.candidate reservation.id)), a⟩]) = .held reservation.id :=
    (stage_snoc h _).trans hs
  have hinvoked : invoked (h ++ [⟨.coordinate (.startAttempt lease
      (Worker.bindingFor θ.candidate reservation.id)), a⟩]) = 0 := (invoked_snoc h rfl).trans hi
  cases a with
  | error e =>
    refine conforms_request.mpr ⟨⟨hstage, hinvoked⟩, fun released => ?_⟩
    exact conforms_request.mpr ⟨trivial, fun _ => trivial⟩
  | ok attempt => exact runStarted_follows hstage hinvoked

end

theorem execute_follows (θ : Job) :
    Follows θ [] (Worker.execute θ.worker θ.execution θ.candidate) := by
  unfold Worker.execute
  split
  · trivial
  refine conforms_request.mpr ⟨trivial, fun a => ?_⟩
  cases a with
  | error e => trivial
  | ok lease =>
    refine conforms_request.mpr ⟨⟨rfl, rfl, rfl⟩, fun reserved => ?_⟩
    cases reserved with
    | error e => exact conforms_request.mpr ⟨trivial, fun _ => trivial⟩
    | ok reservation => exact startAndRun_follows rfl rfl

theorem settled_settles (hl : Lawful (allowed θ) h) {actual : BudgetEstimate}
    (hs : stage h = .settled actual) : ∃ h', Settles θ h' actual := by
  induction h using reverseRecOn with
  | nil => cases hs
  | append_singleton h e ih =>
    obtain ⟨hinit, he⟩ := hl.init
    rw [stage_snoc] at hs
    obtain ⟨q, a⟩ := e
    cases q with
    | settle id actual' =>
      cases a with
      | error text => exact ih hinit hs
      | ok u =>
        cases hs
        exact ⟨h, he.2⟩
    | reserve | release =>
      cases a with
      | error text => exact ih hinit hs
      | ok u => cases hs
    | coordinate | invoke => exact ih hinit hs

/-- A run that invoked its target holds its reservation or has settled the
invocation. -/
def Covered (θ : Job) (h : History) : Prop :=
  (∃ id, stage h = .held id) ∨
    ∃ usage, stage h = .settled (actualBudgetForInvocation θ.candidate.target usage)

theorem invoked_covered (hl : Lawful (allowed θ) h) :
    invoked h = 0 ∨ (invoked h = 1 ∧ Covered θ h) := by
  induction h using reverseRecOn with
  | nil => exact .inl rfl
  | append_singleton h e ih =>
    obtain ⟨hinit, he⟩ := hl.init
    obtain ⟨q, a⟩ := e
    unfold Covered
    rw [stage_snoc]
    cases q with
    | coordinate r =>
      rw [invoked_snoc h rfl]
      exact ih hinit
    | reserve id executionRef nodeRef estimate =>
      rw [invoked_snoc h rfl]
      exact .inl he.2.1
    | release id =>
      rw [invoked_snoc h rfl]
      exact .inl he.2
    | settle id actual =>
      rw [invoked_snoc h rfl]
      rcases ih hinit with hzero | ⟨hone, _⟩
      · exact .inl hzero
      refine .inr ⟨hone, ?_⟩
      cases a with
      | error text => exact .inl ⟨id, he.1⟩
      | ok u =>
        rcases he.2 with ⟨hzero, _⟩ | ⟨usage, rfl⟩
        · rw [hone] at hzero
          cases hzero
        · exact .inr ⟨usage, rfl⟩
    | invoke execution node target =>
      obtain ⟨_, hzero, id, hheld⟩ := he
      refine .inr ⟨?_, .inl ⟨id, hheld⟩⟩
      unfold invoked at hzero ⊢
      rw [countP_append, hzero]
      rfl

end AiCloud.Budget
