import AiCloud.ModelRuntime.Fallback

/-!
# Successful calls and failed bookkeeping

After a provider call succeeded, the runtime still closes the breaker, reads the
model and records the usage. A run that ends in an error made no successful call,
or ends in the error of this bookkeeping.
-/
namespace AiCloud.ModelRuntime

open Lib Execution Tasks Prog List

def generated : Sigma RuntimeAnswer → Option ProviderResponse
  | ⟨.generate .., .ok response⟩ => some response
  | _ => none

/-- The error of a step that follows a successful provider call. -/
def accountError : Sigma RuntimeAnswer → Option RunError
  | ⟨.success _, .error e⟩ => some e
  | ⟨.getModel _, .error e⟩ => some e
  | ⟨.recordModelUsage _, .error e⟩ => some e
  | _ => none

def generations (h : RuntimeHistory) : List ProviderResponse := h.filterMap generated

def accountErrors (h : RuntimeHistory) : List RunError := h.filterMap accountError

/-- No provider call succeeded yet, and nothing was accounted. -/
def Quiet (h : RuntimeHistory) : Prop := generations h = [] ∧ accountErrors h = []

/-- The bookkeeping after a successful call stopped with this error. -/
def Unaccounted (h : RuntimeHistory) (e : RunError) : Prop :=
  generations h ≠ [] ∧ accountErrors h = [e]

/-- The last attempt was marked as retryable. -/
def RunResult.lastRetryable (result : RunResult) : Bool :=
  result.attempts.getLast?.any Attempt.retryable

/-- A run that ends in an error made no successful call, or ends in the error of
the bookkeeping after one. -/
structure RunSound (h : RuntimeHistory) (r : RunResult × Option RunError) : Prop where
  failed : ∀ e, r.2 = some e → Quiet h ∨ (Unaccounted h e ∧ r.1.lastRetryable = false)
  response : ∀ x, r.1.response = some x → x ∈ generations h

def Mark.response : Mark → Option ProviderResponse
  | .generated response => some response
  | _ => none

def Mark.error : Mark → Option RunError
  | .unaccounted e => some e
  | _ => none

theorem mark_states (e : Sigma RuntimeAnswer) :
    generated e = (mark e).bind Mark.response ∧ accountError e = (mark e).bind Mark.error := by
  obtain ⟨q, a⟩ := e
  cases q with
  | now | entropy => exact ⟨rfl, rfl⟩
  | allow => obtain _ | ⟨_ | _, _⟩ := a <;> exact ⟨rfl, rfl⟩
  | getProvider | generate | failure | success | getModel | recordModelUsage =>
    cases a <;> exact ⟨rfl, rfl⟩

theorem generations_eq : generations h = (marks h).filterMap Mark.response := by
  unfold generations marks
  rw [filterMap_filterMap]
  exact filterMap_congr (fun e _ => (mark_states e).1)

theorem accountErrors_eq : accountErrors h = (marks h).filterMap Mark.error := by
  unfold accountErrors marks
  rw [filterMap_filterMap]
  exact filterMap_congr (fun e _ => (mark_states e).2)

variable {ms : List Mark}

theorem verdict_goesOn (h : verdict ms = .goesOn) :
    ms.filterMap Mark.response = [] ∧ ms.filterMap Mark.error = [] := by
  unfold verdict at h
  split at h <;> first | exact ⟨rfl, rfl⟩ | cases h

theorem verdict_succeeds {response : ProviderResponse} (h : verdict ms = .succeeds response) :
    response ∈ ms.filterMap Mark.response := by
  unfold verdict at h
  split at h <;> cases h
  exact mem_singleton_self _

theorem Settles.account {outcome : Outcome} (hs : Settles ms outcome) {e : RunError}
    (he : outcome.error = some e) :
    (ms.filterMap Mark.response = [] ∧ ms.filterMap Mark.error = []) ∨
      (ms.filterMap Mark.response ≠ [] ∧ ms.filterMap Mark.error = [e]) ∧
        outcome.attempt.retryable = false := by
  cases hs with
  | generated => cases he
  | unaccounted attempt response e' hattempt =>
    cases he
    exact .inr ⟨⟨cons_ne_nil _ _, rfl⟩, hattempt⟩
  | unasked | denied | failed | untold => exact .inl ⟨rfl, rfl⟩

variable {σ : Type}

theorem quiet_of_goesOn {x : Turn σ} (hx : x.verdict = .goesOn) : Quiet x.events :=
  ⟨generations_eq.trans (verdict_goesOn hx).1, accountErrors_eq.trans (verdict_goesOn hx).2⟩

theorem quiet_turns {turns : List (Turn σ)} (hall : ∀ x ∈ turns, x.verdict = .goesOn) :
    Quiet (turns.flatMap Turn.events) := by
  unfold Quiet generations accountErrors
  simp only [filterMap_flatMap, flatMap_eq_nil_iff]
  exact ⟨fun x hx => (quiet_of_goesOn (hall x hx)).1, fun x hx => (quiet_of_goesOn (hall x hx)).2⟩

theorem Quiet.append (hq : Quiet h) (h' : RuntimeHistory) :
    generations (h ++ h') = generations h' ∧ accountErrors (h ++ h') = accountErrors h' := by
  have hg : h.filterMap generated = [] := hq.1
  have ha : h.filterMap accountError = [] := hq.2
  unfold generations accountErrors
  rw [filterMap_append, filterMap_append, hg, ha]
  exact ⟨rfl, rfl⟩

theorem execute_sound {costs : Bool} {taskID traceID : String} {decision : RouteDecision}
    {request : ProviderRequest} :
    Conforms (fun _ _ => True) RunSound [] (execute costs taskID traceID decision request) := by
  have hquiet : ∀ {candidate attempts fallback error},
      RunSound [] (⟨candidate, none, attempts, fallback⟩, error) := fun {_ _ _ _} =>
    ⟨fun _ _ => .inl ⟨rfl, rfl⟩, fun _ hx => by cases hx⟩
  refine conforms_ite (fun _ => hquiet) (fun _ => conforms_ite (fun _ => hquiet) ?_)
  refine fun _ => conforms_of_runsTo (fun h r hrun => ?_)
  obtain ⟨turns, hturns, hends⟩ := executeCandidates_turns hrun
  rw [nil_append, hturns.events]
  rcases hends with ⟨before, last, rfl, hbefore, hlast⟩ | ⟨hall, _, e, rfl⟩
  · obtain ⟨hg, ha⟩ := (quiet_turns hbefore).append last.events
    have hx := hturns.each before.length last (by simp)
    have hs : Settles (marks last.events) last.outcome :=
      (executeCandidate_judged.of_runsTo hx).settles
    rw [generations_eq (h := last.events)] at hg
    rw [accountErrors_eq (h := last.events)] at ha
    rw [flatMap_append, flatMap_singleton]
    rcases hlast with ⟨response, hv, rfl⟩ | ⟨hv, e, he, rfl⟩
    · refine ⟨fun _ he => (by cases he), fun x hx => ?_⟩
      cases hx
      exact hg ▸ verdict_succeeds hv
    · refine ⟨fun e' he' => ?_, fun _ hx => (by cases hx)⟩
      cases he'
      unfold Quiet Unaccounted RunResult.lastRetryable
      rw [hg, ha, nil_append, map_append, map_singleton, getLast?_concat]
      exact hs.account he
  · exact ⟨fun _ _ => .inl (quiet_turns hall), fun _ hx => by cases hx⟩

end AiCloud.ModelRuntime
