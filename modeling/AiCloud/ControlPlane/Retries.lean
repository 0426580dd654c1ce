import AiCloud.ControlPlane.ModelProtocol

/-!
# What a retryable failure means

A command that is recorded as failed_retryable may be sent to the provider
again. It is recorded so after a successful provider call exactly when the
bookkeeping that follows the call ended in an error classed as retryable.
-/
namespace AiCloud.ControlPlane

open Lib Identity Execution Tasks ModelRuntime System List

/-- The command was recorded as failed_retryable. -/
def recordedRetryable (h : ModelHistory) : Bool :=
  h.any (fun e => match e with
    | ⟨.markModelExecutionRetryable _, .ok _⟩ => true
    | _ => false)

theorem recordedRetryable_iff {h : ModelHistory} : recordedRetryable h = true ↔
    ∃ record u, (⟨.markModelExecutionRetryable record, Except.ok u⟩ : Sigma ModelAnswer) ∈ h := by
  unfold recordedRetryable
  rw [any_eq_true]
  constructor
  · rintro ⟨e, hm, he⟩
    split at he
    · exact ⟨_, _, hm⟩
    · cases he
  · rintro ⟨record, u, hm⟩
    exact ⟨_, hm, rfl⟩

theorem lawful_closed_last {codec : Codec} {h : ModelHistory}
    (hl : Prog.Lawful (Allowed enc codec θ) h) {e : Sigma ModelAnswer} (he : e ∈ h)
    (hc : e.1.isClosing = true) : ∃ pre, h = pre ++ [e] ∧ Allowed enc codec θ pre e.1 := by
  obtain ⟨pre, post, rfl, ha⟩ := hl.mem he
  cases post with
  | nil => exact ⟨pre, rfl, ha⟩
  | cons d post =>
    have hnext := hl (pre ++ [e]) d post (by simp)
    have hopen : Open (pre ++ [e]) := by
      cases d with
      | mk q a => cases q <;> first | exact hnext | exact hnext.1
    exact absurd hopen (not_open_snoc hc)

/--
A call that recorded its command as failed_retryable made no successful provider
call if and only if no error of the bookkeeping after a call is classed as
retryable.
-/
theorem retryable_without_success {enc : ModelEncoding} {codec : Codec} {s : ModelSystem}
    (hr : ModelReachable enc codec s) {i : Nat} {θ : ModelCall} (hj : s.job i = some θ)
    (hrec : recordedRetryable (s.history i) = true) :
    generations (runtimeHistory (s.history i)) = [] ↔
      ∀ e ∈ accountErrors (runtimeHistory (s.history i)), (classify e).2 = false := by
  have hl := (hr.protocol (executeModelIdempotent_conforms enc codec)).lawful i θ hj
  obtain ⟨record, u, hm⟩ := recordedRetryable_iff.mp hrec
  obtain ⟨pre, hpre, _, _, _, _, _, hiff⟩ := lawful_closed_last hl hm rfl
  rw [hpre, runtimeHistory_other rfl]
  exact hiff

/-- The command is released for a retry. -/
def overloadedMoves : List ModelMove :=
  routedMoves ++ [.spawn (sampleModelCall "k")]
    ++ modelSteps 0 10 (sampleModelChoice (.ok ()) "a")
    ++ modelSteps 0 4 (busyModelChoice "b")

theorem retryable_without_success_overloaded :
    ∃ s : ModelSystem, ModelReachable sampleModelEncoding sampleCodec s ∧
      recordedRetryable (s.history 0) = true ∧ (generations (runtimeHistory (s.history 0)) = [] ↔
        ∀ e ∈ accountErrors (runtimeHistory (s.history 0)), (classify e).2 = false) := by
  obtain ⟨s, hr, hjob, hrec⟩ := modelScheduled_exists (P := fun s => (s.job 0).isSome ∧
    recordedRetryable (s.history 0) = true) sampleModelEncoding sampleCodec overloadedMoves
      (by decide +kernel)
  obtain ⟨θ, hj⟩ := Option.isSome_iff_exists.mp hjob
  exact ⟨s, hr, hrec, retryable_without_success hr hj hrec⟩

/-- The provider answers, and the ledger then runs out of time. -/
def unrecordedMoves : List ModelMove :=
  routedMoves ++ [.spawn (sampleModelCall "k")]
    ++ modelSteps 0 16 (sampleModelChoice (.error ⟨"ledger", none, true⟩) "a")

/-- A command is released for a retry although its provider call succeeded. -/
theorem retryable_after_success :
    ∃ s : ModelSystem, ModelReachable sampleModelEncoding sampleCodec s ∧
      recordedRetryable (s.history 0) = true ∧
      generations (runtimeHistory (s.history 0)) = [⟨"hello", .nil, ⟨1, 1, 2⟩⟩] :=
  modelScheduled_exists _ _ unrecordedMoves (by decide +kernel)

end AiCloud.ControlPlane
