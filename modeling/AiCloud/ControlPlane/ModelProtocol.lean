import AiCloud.ControlPlane.ModelSystem
import AiCloud.ModelRuntime.Bookkeeping

/-!
# What a model command asks for

A call begins at most one command, for the task it read and under the record of
its own key. After the provider ran it asks at most one more time, either to
release the record or to finalize it, and then returns.
-/
namespace AiCloud.ControlPlane

open Lib Text Identity Execution Tasks ModelRuntime Prog List

abbrev ModelHistory := List (Sigma ModelAnswer)

def runtimeEntry : Sigma ModelAnswer → Option (Sigma RuntimeAnswer)
  | ⟨.runtime q, a⟩ => some ⟨q, a⟩
  | _ => none

variable (h : ModelHistory)

/-- What the runtime asked during the command. -/
def runtimeHistory : RuntimeHistory := h.filterMap runtimeEntry

/-- The requests that end a command. -/
def ModelRequest.isClosing : ModelRequest → Bool
  | .markModelExecutionRetryable _ => true
  | .finalizeModelExecution _ => true
  | _ => false

def Open : Prop := ∀ e ∈ h, e.1.isClosing = false

def begun : Option (ModelExecutionBeginCommit × Task) := h.findSome? begunBy

/-- Go's clock is past its zero time. -/
def Clocks : Prop := ∀ t : Time, (⟨.now, t⟩ : Sigma ModelAnswer) ∈ h → 0 < t

theorem runtimeHistory_snoc (e : Sigma ModelAnswer) :
    runtimeHistory (h ++ [e]) = runtimeHistory h ++ (runtimeEntry e).toList := by
  unfold runtimeHistory
  rw [filterMap_append]
  cases hr : runtimeEntry e <;> simp [hr]

variable {e : Sigma ModelAnswer} {h : ModelHistory}

theorem runtimeHistory_other (he : runtimeEntry e = none) :
    runtimeHistory (h ++ [e]) = runtimeHistory h := by
  rw [runtimeHistory_snoc, he, Option.toList_none, append_nil]

theorem begun_snoc (h : ModelHistory) (e : Sigma ModelAnswer) :
    begun (h ++ [e]) = (begun h).or (begunBy e) := by
  unfold begun
  rw [findSome?_append, findSome?_singleton]

theorem Open.snoc (ho : Open h) (he : e.1.isClosing = false) : Open (h ++ [e]) := by
  intro d hd
  rcases mem_append.mp hd with hd | hd
  · exact ho d hd
  · rw [mem_singleton.mp hd]
    exact he

theorem not_open_snoc (he : e.1.isClosing = true) : ¬ Open (h ++ [e]) := by
  intro ho
  have hf := ho e mem_concat_self
  rw [he] at hf
  cases hf

/-- A record with a result: what the command reserved, and a stored response. -/
def Finishes (enc : ModelEncoding) (reserved : IdempotencyRecord) (status : IdempotencyStatus)
    (result : IdempotencyRecord) : Prop :=
  ∃ resourceID responseCode responsePayload stored,
    enc.marshalStored stored = some responsePayload ∧ result = { reserved with
      status := status, resourceID := resourceID, responseCode := responseCode
      responsePayload := responsePayload }

/-- `encoding/json` marshals maps of texts, and a stored response whenever its
provider response can be marshalled; its output is valid JSON. -/
structure ModelEncoding.Lawful (enc : ModelEncoding) (codec : Codec) : Prop where
  failed : ∀ operationID error, ∃ text, enc.failedPayload operationID error = some text ∧
    text ≠ "" ∧ codec.valid text = true
  validation : ∀ operationID, ∃ text, enc.validationPayload operationID = some text ∧
    text ≠ "" ∧ codec.valid text = true
  completed : ∀ operationID modelID modelVersion fallback, ∃ text,
    enc.completedPayload operationID modelID modelVersion fallback = some text ∧
      text ≠ "" ∧ codec.valid text = true
  stored : ∀ stored : StoredModelCommandResponse,
    (∀ x, stored.result.response = some x → enc.marshalResponse x ≠ none) →
      enc.marshalStored stored ≠ none
  storedValid : ∀ stored text, enc.marshalStored stored = some text → codec.valid text = true

section

variable (enc : ModelEncoding) (codec : Codec) (θ : ModelCall)

def Allowed (h : ModelHistory) : ModelRequest → Prop
  | .beginModelExecution command => Open h ∧ begun h = none ∧ runtimeHistory h = [] ∧
      ∃ p now task, principalOf θ.ctx = .ok p ∧ command.idempotency = θ.record p now ∧
        (⟨.getTask θ.taskID, .ok task⟩ : Sigma ModelAnswer) ∈ h ∧ command.task.id = task.id
  | .markModelExecutionRetryable record => Open h ∧ ∃ command task, begun h = some (command, task) ∧
      Finishes enc command.idempotency .failedRetryable record ∧
      (generations (runtimeHistory h) = [] ↔
        ∀ e ∈ accountErrors (runtimeHistory h), (classify e).2 = false)
  | .finalizeModelExecution command => Open h ∧ ∃ begin task, begun h = some (begin, task) ∧
      Finishes enc begin.idempotency command.idempotency.status command.idempotency ∧
      (enc.Lawful codec → Clocks h → task.status = .executing → ¬ Blank task.traceID →
        SameVersion task command.task ∧ Conclusive codec command)
  | _ => Open h

/-- A call that began a command asked for its end, or the provider's response
cannot be stored. -/
def Final (h : ModelHistory) (_ : ModelReply) : Prop :=
  enc.Lawful codec → Clocks h → ∀ command task, begun h = some (command, task) →
    task.status = .executing →
      ¬ Open h ∨ ∃ x ∈ generations (runtimeHistory h), enc.marshalResponse x = none

end

variable {enc : ModelEncoding} {codec : Codec} {h : ModelHistory} {r : ModelReply}

theorem final_closed (he : e.1.isClosing = true) : Final enc codec (h ++ [e]) r :=
  fun _ _ _ _ _ _ => Or.inl (not_open_snoc he)

theorem final_unbegun (hb : begun h = none) : Final enc codec h r := by
  intro _ _ command task hsome
  rw [hb] at hsome
  cases hsome

theorem final_unstored {result : RunResult} {err : Option RunError} {e : ControlError}
    (hsound : RunSound (runtimeHistory h) (result, err))
    (he : encodeStoredModelResponse enc result err = .error e) : Final enc codec h r := by
  intro hlaw _ _ _ _ _
  right
  by_contra hall
  refine hlaw.stored ⟨result, err.map storedError⟩ ?_ (encoded_error he)
  intro x hx hnone
  exact hall ⟨x, hsound.response x hx, hnone⟩

/-- The command is begun and its end not yet asked for. -/
structure Running (h : ModelHistory) (run : ModelRun) (task : Task) : Prop where
  isOpen : Open h
  begun : ∃ command, begun h = some (command, task) ∧ command.idempotency = run.record

variable {run : ModelRun} {result : RunResult} {task : Task} {err : Option RunError}

theorem Running.snoc (hr : Running h run task) (he : e.1.isClosing = false) :
    Running (h ++ [e]) run task := by
  obtain ⟨command, hb, hrec⟩ := hr.begun
  refine ⟨hr.isOpen.snoc he, command, ?_, hrec⟩
  rw [begun_snoc, hb]
  rfl

theorem releaseModel_conforms {e : RunError}
    (hr : Running h run task) (hsound : RunSound (runtimeHistory h) (result, some e))
    (hretry : modelExecutionRetryable result e = true) :
    Conforms (Allowed enc codec run.call) (Final enc codec) h
      (releaseModel enc run task result e) := by
  unfold releaseModel
  split
  · exact final_unstored hsound ‹_›
  rename_i stored hstored
  obtain ⟨command, hb, hrec⟩ := hr.begun
  refine ⟨⟨hr.isOpen, command, task, hb, ?_, ?_⟩, ?_⟩
  · rw [hrec]
    exact ⟨_, _, stored, _, encoded_ok hstored, rfl⟩
  · rcases hsound.failed e rfl with ⟨hg, ha⟩ | ⟨⟨hg, ha⟩, hlast⟩
    · rw [hg, ha]
      simp
    · -- the last attempt is not marked, so the error itself was classed as retryable
      have hclass : (classify e).2 = true := by
        unfold modelExecutionRetryable at hretry
        rw [show result.attempts.getLast?.any Attempt.retryable = false from hlast] at hretry
        unfold classify
        cases hp : e.provider with
        | some p => simpa [hp] using hretry
        | none =>
          have hd : e.deadlineExceeded = true := by simpa [hp] using hretry
          simp [hd]
      rw [ha]
      simp [hg, hclass]
  · intro a
    cases a <;> exact final_closed rfl

theorem finishModel_conforms {θ : ModelCall} {command : ModelExecutionFinalizeCommit}
    (ha : Allowed enc codec θ h (.finalizeModelExecution command)) :
    Conforms (Allowed enc codec θ) (Final enc codec) h (finishModel command result err) := by
  refine ⟨ha, ?_⟩
  intro a
  cases a <;> exact final_closed rfl

theorem final_unmoved {task moving : Task} {target : TaskStatus} {cause : String}
    {at_ : Time} {e : TransitionError} (hr : Running h run task)
    (hp : principalOf run.call.ctx = .ok run.principal) (hcause : ¬ Blank cause)
    (hmove : task.status = .executing → moving.canTransition target = true)
    (he : moving.transition ⟨target, transitionActor run.call.ctx, cause, at_⟩ = .error e) :
    Final enc codec (h ++ [⟨.now, at_⟩]) r := by
  intro _ hclocks command task' hb hexec
  obtain ⟨command', hb', _⟩ := (hr.snoc (e := ⟨.now, at_⟩) rfl).begun
  rw [hb] at hb'
  cases hb'
  have hpos : (0 : Time) < at_ := hclocks at_ mem_concat_self
  have hactor : ¬ Blank (transitionActor run.call.ctx) := transitionActor_named hp
  obtain ⟨moved, hmoved⟩ : ∃ moved, moving.transition
      ⟨target, transitionActor run.call.ctx, cause, at_⟩ = .ok moved :=
    transition_of_allowed hactor hcause (Int.ne_of_gt hpos) (hmove hexec)
  rw [hmoved] at he
  cases he

section

variable (hr : Running h run task)

include hr

section

variable (hp : principalOf run.call.ctx = .ok run.principal)

include hp

theorem failModel_conforms {e : RunError}
    (hsound : RunSound (runtimeHistory h) (result, some e)) :
    Conforms (Allowed enc codec run.call) (Final enc codec) h
      (failModel enc run task result e) := by
  unfold failModel
  refine conforms_request.mpr ⟨hr.isOpen, fun failedAt => ?_⟩
  have hr₁ := hr.snoc (e := ⟨.now, failedAt⟩) rfl
  have hsound₁ : RunSound (runtimeHistory (h ++ [⟨.now, failedAt⟩])) (result, some e) := by
    rw [runtimeHistory_other rfl]
    exact hsound
  split
  · rename_i err herr
    have hcause : ¬ Blank "model execution failed" := by decide
    refine conforms_pure.mpr (final_unmoved hr hp hcause ?_ herr)
    intro hexec
    simp [Task.canTransition, TaskStatus.canTransition, hexec, TaskStatus.isTerminal,
      isKnownNonTerminal]
  · rename_i failed transition hmoved
    obtain ⟨hsame, hstatus, hsource, htarget, hat, hcomplete⟩ := transition_ok hmoved
    split
    · -- the payload is a map of texts
      rename_i err herr
      intro hlaw
      obtain ⟨text, htext, _⟩ := hlaw.failed run.operationID e.message
      rw [encoded_error herr] at htext
      cases htext
    · rename_i payload hpayload
      split
      · exact final_unstored hsound₁ ‹_›
      rename_i stored hstored
      refine ⟨hr₁.isOpen, fun random => finishModel_conforms ?_⟩
      have hr₂ := hr₁.snoc (e := ⟨.newID, random⟩) rfl
      obtain ⟨command, hb, hrec⟩ := hr₂.begun
      refine ⟨hr₂.isOpen, command, task, hb, ?_, ?_⟩
      · rw [hrec]
        exact ⟨_, _, stored, _, encoded_ok hstored, rfl⟩
      · intro hlaw hclocks hexec htrace
        have hin := (requireProject_ok (principalOf_ok hp)).2
        obtain ⟨text, htext, hvalid⟩ := hlaw.failed run.operationID e.message
        obtain rfl := Option.some.inj (htext.symm.trans (encoded_ok hpayload))
        have hpos : (0 : Time) < failedAt := hclocks failedAt (by simp)
        have hresult : SameVersion task { task with result := e.message } :=
          ⟨rfl, rfl, rfl, rfl, rfl, rfl⟩
        have hkept := hresult.trans hsame
        refine ⟨hkept, rfl, ?_, ?_, ?_, by rwa [hkept.traceID]⟩
        · have hsrc : transition.source = .executing := hsource.trans hexec
          simp [checkChain, hsrc, htarget, hcomplete, hstatus, canonicalTaskStateEvent,
            commandEvent]
        · simp [checkFinal, hstatus, htarget]
        · intro e' he'
          rw [mem_singleton.mp he']
          exact commandEvent_stampable hin (by decide) hvalid hpos

omit hp in
theorem settleCost_conforms (hsound : RunSound (runtimeHistory h) (result, err)) :
    Conforms (Allowed enc codec run.call)
      (fun h' task' => Running h' run task ∧ RunSound (runtimeHistory h') (result, err) ∧
        SameVersion task task' ∧ task'.status = task.status) h
          (settleCost enc run task result) := by
  unfold settleCost
  refine conforms_ite (fun _ => ?_) (fun _ => ⟨hr, hsound, ⟨rfl, rfl, rfl, rfl, rfl, rfl⟩, rfl⟩)
  refine conforms_request.mpr ⟨hr.isOpen, fun answer => ?_⟩
  have hr₁ := hr.snoc (e := ⟨.aggregateTask task.id, answer⟩) rfl
  have hsound₁ : RunSound (runtimeHistory (h ++ [⟨.aggregateTask task.id, answer⟩]))
    (result, err) := by
    rw [runtimeHistory_other rfl]
    exact hsound
  cases answer <;> exact ⟨hr₁, hsound₁, ⟨rfl, rfl, rfl, rfl, rfl, rfl⟩, rfl⟩

theorem completeModel_conforms (hsound : RunSound (runtimeHistory h) (result, none)) :
    Conforms (Allowed enc codec run.call) (Final enc codec) h
      (completeModel enc run task result) := by
  unfold completeModel
  refine conforms_bind (settleCost_conforms hr hsound) ?_
  rintro h₁ settled ⟨hr₁, hsound₁, hsame₁, hstatus₁⟩
  refine conforms_request.mpr ⟨hr₁.isOpen, fun validatingAt => ?_⟩
  have hr₂ := hr₁.snoc (e := ⟨.now, validatingAt⟩) rfl
  split
  · rename_i err herr
    have hcause : ¬ Blank "validate model execution result" := by decide
    refine conforms_pure.mpr (final_unmoved hr₁ hp hcause ?_ herr)
    intro hexec
    simp [Task.canTransition, TaskStatus.canTransition, hstatus₁, hexec, TaskStatus.isTerminal]
  · rename_i validated validating hvalidated
    obtain ⟨hsame₂, hstatus₂, hsource₂, htarget₂, _, hcomplete₂⟩ := transition_ok hvalidated
    refine conforms_request.mpr ⟨hr₂.isOpen, fun completedAt => ?_⟩
    have hr₃ := hr₂.snoc (e := ⟨.now, completedAt⟩) rfl
    split
    · rename_i err herr
      have hcause : ¬ Blank "model execution result accepted" := by decide
      refine conforms_pure.mpr (final_unmoved hr₂ hp hcause ?_ herr)
      intro _
      simp [Task.canTransition, TaskStatus.canTransition, hstatus₂, TaskStatus.isTerminal]
    · rename_i final completed hfinal
      obtain ⟨hsame₃, hstatus₃, hsource₃, htarget₃, _, hcomplete₃⟩ := transition_ok hfinal
      split
      · refine @final_unstored _ _ _ _ result none _ ?_ ‹_›
        rw [runtimeHistory_other rfl, runtimeHistory_other rfl]
        exact hsound₁
      · rename_i stored hstored
        refine conforms_request.mpr ⟨hr₃.isOpen, fun validatingRandom => ?_⟩
        have hr₄ := hr₃.snoc (e := ⟨.newID, validatingRandom⟩) rfl
        refine conforms_request.mpr ⟨hr₄.isOpen, fun completedRandom => ?_⟩
        have hr₅ := hr₄.snoc (e := ⟨.newID, completedRandom⟩) rfl
        refine finishModel_conforms ?_
        obtain ⟨command, hb, hrec⟩ := hr₅.begun
        refine ⟨hr₅.isOpen, command, task, hb, ?_, ?_⟩
        · rw [hrec]
          exact ⟨_, _, stored, _, encoded_ok hstored, rfl⟩
        · intro hlaw hclocks hexec htrace
          have hin := (requireProject_ok (principalOf_ok hp)).2
          have hpos₂ : (0 : Time) < validatingAt := hclocks validatingAt (by simp)
          have hpos₃ : (0 : Time) < completedAt := hclocks completedAt (by simp)
          obtain ⟨text, htext, hvalid⟩ := hlaw.validation run.operationID
          obtain ⟨text', htext', hvalid'⟩ := hlaw.completed run.operationID
            result.candidate.modelID result.candidate.modelVersion result.fallback
          have hkept := (hsame₁.trans hsame₂).trans hsame₃
          refine ⟨hkept, rfl, ?_, ?_, ?_, by rwa [hkept.traceID]⟩
          · have hsrc₂ : validating.source = .executing :=
              hsource₂.trans (hstatus₁.trans hexec)
            have hsrc₃ : completed.source = .validating := hsource₃.trans hstatus₂
            simp [checkChain, hsrc₂, htarget₂, hcomplete₂, hsrc₃, htarget₃, hcomplete₃, hstatus₃,
              canonicalTaskStateEvent, commandEvent]
          · simp [checkFinal, hstatus₃, htarget₂, htarget₃]
          · intro e' he'
            rw [htext, htext'] at he'
            rcases mem_cons.mp he' with rfl | he'
            · exact commandEvent_stampable hin (by decide) hvalid hpos₂
            · rw [mem_singleton.mp he']
              exact commandEvent_stampable hin (by decide) hvalid' hpos₃

theorem concludeModel_conforms (hsound : RunSound (runtimeHistory h) (result, err)) :
    Conforms (Allowed enc codec run.call) (Final enc codec) h
      (concludeModel enc run task result err) := by
  cases err with
  | none => exact completeModel_conforms hr hp hsound
  | some e =>
    refine conforms_ite (fun hretry => ?_) (fun _ => failModel_conforms hr hp hsound)
    exact releaseModel_conforms hr hsound hretry

end

end

variable {decision : RouteDecision}

theorem runRuntime_conforms {costs : Bool} {taskID traceID : String} {request : ProviderRequest}
    (hr : Running h run task) (hnone : runtimeHistory h = []) :
    Conforms (Allowed enc codec run.call)
      (fun h' r => Running h' run task ∧ RunSound (runtimeHistory h') r) h
      (runRuntime (execute costs taskID traceID decision request)) := by
  have hstart : Running h run task ∧ runtimeHistory h = [] := ⟨hr, hnone⟩
  refine conforms_embed (R := fun h h' => Running h run task ∧ runtimeHistory h = h') ?_ ?_
    hstart execute_sound
  · rintro h h' q ⟨hr, hruntime⟩ _
    refine ⟨hr.isOpen, fun a => ⟨hr.snoc rfl, ?_⟩⟩
    rw [runtimeHistory_snoc, hruntime]
    rfl
  · rintro h h' r ⟨hr, hruntime⟩ hsound
    rw [hruntime]
    exact ⟨hr, hsound⟩

theorem runModel_conforms (run : ModelRun) {command : ModelExecutionBeginCommit}
    {answer : ModelExecutionBeginResult} (hp : principalOf run.call.ctx = .ok run.principal)
    (hopen : Open h) (hb : begun h = none) (hnone : runtimeHistory h = [])
    (hrec : command.idempotency = run.record) :
    Conforms (Allowed enc codec run.call) (Final enc codec)
      (h ++ [⟨.beginModelExecution command, .ok answer⟩]) (runModel enc run decision answer) := by
  have hbegun := begun_snoc h ⟨.beginModelExecution command, .ok answer⟩
  rw [hb, Option.none_or] at hbegun
  unfold runModel
  refine conforms_ite (fun hrep => ?_) (fun hrep => ?_)
  · refine final_unbegun ?_
    rw [hbegun]
    exact if_pos hrep
  · have hbegun : begun (h ++ [⟨.beginModelExecution command, .ok answer⟩]) =
        answer.task.map (fun task => (command, task)) := hbegun.trans (if_neg hrep)
    split
    · rename_i htask
      refine final_unbegun ?_
      rw [hbegun, htask]
      rfl
    · rename_i task htask
      rw [htask] at hbegun
      have hr : Running (h ++ [⟨.beginModelExecution command, .ok answer⟩]) run task :=
        ⟨hopen.snoc rfl, command, hbegun, hrec⟩
      refine conforms_bind (runRuntime_conforms hr ?_) ?_
      · rw [runtimeHistory_other rfl, hnone]
      · rintro h' ⟨result, err⟩ ⟨hr', hsound⟩
        exact concludeModel_conforms hr' hp hsound

/-- Nothing was begun and the runtime was not asked. -/
structure Before (h : ModelHistory) : Prop where
  isOpen : Open h
  unbegun : begun h = none
  quiet : runtimeHistory h = []

theorem Before.snoc (hb : Before h) (hc : e.1.isClosing = false) (hbegun : begunBy e = none)
    (hruntime : runtimeEntry e = none) : Before (h ++ [e]) := by
  refine ⟨hb.isOpen.snoc hc, ?_, ?_⟩
  · rw [begun_snoc, hb.unbegun, hbegun]
    rfl
  · rw [runtimeHistory_other hruntime, hb.quiet]

theorem prepareBegin_conforms (run : ModelRun) {task : Task} {now : Time} (hb : Before h) :
    Conforms (Allowed enc codec run.call) (fun h' r => Before h' ∧ ∀ command, r = .ok command →
        command.idempotency = run.record ∧ command.task.id = task.id) h
      (prepareBegin enc run task decision now) := by
  unfold prepareBegin
  refine conforms_ite (fun _ => ?_) (fun _ => conforms_ite (fun _ => ?_) (fun _ => ?_))
  · split
    · refine ⟨hb, fun _ hr => ?_⟩
      cases hr
    · rename_i moved transition hmoved
      split
      · refine ⟨hb, fun _ hr => ?_⟩
        cases hr
      · refine conforms_request.mpr ⟨hb.isOpen, fun random => ⟨hb.snoc rfl rfl rfl, ?_⟩⟩
        intro command hr
        cases hr
        exact ⟨rfl, (transition_ok hmoved).1.id⟩
  · refine ⟨hb, fun _ hr => ?_⟩
    cases hr
  · refine ⟨hb, fun command hr => ?_⟩
    cases hr
    exact ⟨rfl, rfl⟩

theorem startModel_conforms {c : ModelCall} {p : Principal} (hp : principalOf c.ctx = .ok p)
    (hb : Before h) : Conforms (Allowed enc codec c) (Final enc codec) h (startModel enc c p) := by
  unfold startModel
  refine conforms_request.mpr ⟨hb.isOpen, fun found => ?_⟩
  have hb₁ := hb.snoc (e := ⟨.getTask c.taskID, found⟩) rfl rfl rfl
  cases found with
  | error e => exact final_unbegun hb₁.unbegun
  | ok task =>
    have hread : (⟨.getTask c.taskID, .ok task⟩ : Sigma ModelAnswer) ∈
        h ++ [⟨.getTask c.taskID, .ok task⟩] := mem_concat_self
    refine conforms_ite (fun _ => final_unbegun hb₁.unbegun) (fun _ => ?_)
    refine conforms_request.mpr ⟨hb₁.isOpen, fun routed => ?_⟩
    have hb₂ := hb₁.snoc (e := ⟨.getRoute task.routeDecisionID, routed⟩) rfl rfl rfl
    cases routed with
    | error text => exact final_unbegun hb₂.unbegun
    | ok decision =>
      refine conforms_request.mpr ⟨hb₂.isOpen, fun now => ?_⟩
      have hb₃ := hb₂.snoc (e := ⟨.now, now⟩) rfl rfl rfl
      refine conforms_bind (conforms_extends (prepareBegin_conforms
        ⟨c, p, logicalModelOperationID enc task.id c.metadata.idempotencyKey, c.record p now⟩
        hb₃)) ?_
      rintro h' prepared ⟨hpre, hb', hcommand⟩
      cases prepared with
      | error e => exact final_unbegun hb'.unbegun
      | ok command =>
        obtain ⟨hrec, hid⟩ := hcommand command rfl
        have hread' := hpre.subset (mem_append_left _ (mem_append_left _ hread))
        refine conforms_request.mpr ⟨⟨hb'.isOpen, hb'.unbegun, hb'.quiet, p, now, task, hp,
          hrec, hread', hid⟩, fun answer => ?_⟩
        cases answer with
        | error e => exact final_unbegun (hb'.snoc rfl rfl rfl).unbegun
        | ok begun =>
          exact runModel_conforms ⟨c, p, _, c.record p now⟩ hp hb'.isOpen hb'.unbegun hb'.quiet hrec

theorem executeModelIdempotent_conforms (enc : ModelEncoding) (codec : Codec) (c : ModelCall) :
    Conforms (Allowed enc codec c) (Final enc codec) [] (executeModelIdempotent enc c) := by
  have hb : Before [] := ⟨forall_mem_nil _, rfl, rfl⟩
  unfold executeModelIdempotent
  split
  · exact final_unbegun rfl
  split
  · exact final_unbegun rfl
  rename_i p hp
  refine conforms_request.mpr ⟨hb.isOpen, fun resolved => ?_⟩
  have hb₁ := hb.snoc (e := ⟨.resolveIdempotency _, resolved⟩) rfl rfl rfl
  split
  · exact final_unbegun hb₁.unbegun
  · exact final_unbegun hb₁.unbegun
  · exact startModel_conforms hp hb₁

end AiCloud.ControlPlane
