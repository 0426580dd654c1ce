import AiCloud.Lib.Schedule
import AiCloud.ModelRuntime.Breaker

/-!
# The fallback chain

What a candidate's turn was answered decides whether the run ends with it. `Execute`
takes the candidates in their order until one turn ends the run.
-/
namespace AiCloud.ModelRuntime

open Lib Execution Tasks Prog List

abbrev RuntimeHistory := List (Sigma RuntimeAnswer)

/-- The answers that decide a turn. -/
inductive Mark
  | denied
  | generated (response : ProviderResponse)
  | failed (retryable : Bool)
  | untold
  | unaccounted (e : RunError)

def mark : Sigma RuntimeAnswer → Option Mark
  | ⟨.allow _, .ok (false, _)⟩ => some .denied
  | ⟨.generate .., .ok response⟩ => some (.generated response)
  | ⟨.generate .., .error e⟩ => some (.failed (classify e).2)
  | ⟨.failure _, .error _⟩ => some .untold
  | ⟨.success _, .error e⟩ => some (.unaccounted e)
  | ⟨.getModel _, .error e⟩ => some (.unaccounted e)
  | ⟨.recordModelUsage _, .error e⟩ => some (.unaccounted e)
  | _ => none

def marks (h : RuntimeHistory) : List Mark := h.filterMap mark

/-- What the marks of a turn say of its outcome. The breaker's own failure and a missing
provider leave no mark. -/
inductive Settles : List Mark → Outcome → Prop
  | unasked (attempt : Attempt) (e : RunError) : Settles [] ⟨attempt, none, false, some e⟩
  | denied (attempt : Attempt) (e : RunError) : Settles [.denied] ⟨attempt, none, true, some e⟩
  | failed (attempt : Attempt) (retryable : Bool) (e : RunError) :
      Settles [.failed retryable] ⟨attempt, none, retryable, some e⟩
  | untold (attempt : Attempt) (e : RunError) :
      Settles [.failed true, .untold] ⟨attempt, none, false, some e⟩
  | generated (attempt : Attempt) (response : ProviderResponse) :
      Settles [.generated response] ⟨attempt, some response, false, none⟩
  | unaccounted (attempt : Attempt) (response : ProviderResponse) (e : RunError) :
      attempt.retryable = false →
      Settles [.generated response, .unaccounted e] ⟨attempt, none, false, some e⟩

def Attempt.Of (attempt : Attempt) (candidate : RouteCandidate) : Prop :=
  attempt.modelID = candidate.modelID ∧ attempt.modelVersion = candidate.modelVersion ∧
    attempt.deploymentID = candidate.deploymentID

structure Judged (candidate : RouteCandidate) (h : RuntimeHistory) (outcome : Outcome) : Prop where
  attempt : outcome.attempt.Of candidate
  settles : Settles (marks h) outcome

variable {h : RuntimeHistory} {candidate : RouteCandidate} {outcome : Outcome} {costs : Bool}
  {taskID traceID breakerKey : String} {attemptNumber : Int} {attempt : Attempt}
  {request : ProviderRequest} {ms : List Mark} {x : Sigma RuntimeAnswer}

theorem marks_snoc (hm : marks h = ms) : marks (h ++ [x]) = ms ++ (mark x).toList := by
  unfold marks at hm ⊢
  rw [filterMap_append, hm]
  cases hx : mark x <;> simp [hx]

theorem judged_snoc (hm : marks h = ms) (hof : outcome.attempt.Of candidate)
    (hs : Settles (ms ++ (mark x).toList) outcome) : Judged candidate (h ++ [x]) outcome :=
  ⟨hof, by rw [marks_snoc hm]; exact hs⟩

theorem findProvider_unmarked (hm : marks h = []) :
    Conforms (fun _ _ => True) (fun h' _ => marks h' = []) h (findProvider candidate) := by
  refine ⟨trivial, ?_⟩
  intro a
  have hm₁ : marks (h ++ [⟨_, a⟩]) = [] := marks_snoc hm
  cases a with
  | ok _ => exact hm₁
  | error e =>
    refine conforms_ite (fun _ => hm₁) (fun _ => ⟨trivial, fun a => ?_⟩)
    cases a <;> exact marks_snoc hm₁

theorem failAttempt_judged {e : RunError} (hm : marks h = [.failed (classify e).2])
    (hof : attempt.Of candidate) :
    Conforms (fun _ _ => True) (Judged candidate) h (failAttempt breakerKey attempt e) := by
  refine conforms_ite (fun hr => ⟨trivial, fun a => ?_⟩) (fun hr => ⟨hof, hm ▸ .failed _ _ _⟩)
  cases a with
  | error breakerErr =>
    rw [show (classify e).2 = true from hr] at hm
    exact judged_snoc hm hof (.untold _ _)
  | ok state => exact judged_snoc hm hof (.failed _ _ _)

theorem accountAttempt_judged {response : ProviderResponse} (hm : marks h = [.generated response])
    (hof : attempt.Of candidate) (hattempt : attempt.retryable = false) :
    Conforms (fun _ _ => True) (Judged candidate) h
      (accountAttempt costs taskID traceID breakerKey candidate attemptNumber attempt
        response) := by
  refine ⟨trivial, fun a => ?_⟩
  cases a with
  | error e => exact judged_snoc hm hof (.unaccounted _ _ _ hattempt)
  | ok _ =>
    have hm₁ := marks_snoc (x := ⟨.success breakerKey, .ok ()⟩) hm
    refine conforms_ite (fun _ => ⟨trivial, fun a => ?_⟩)
      (fun _ => judged_snoc hm hof (.generated _ _))
    cases a with
    | error e => exact judged_snoc hm₁ hof (.unaccounted _ _ _ hattempt)
    | ok model =>
      have hm₂ := marks_snoc (x := ⟨.getModel candidate.modelID, .ok model⟩) hm₁
      refine ⟨trivial, fun a => ?_⟩
      cases a with
      | error e => exact judged_snoc hm₂ hof (.unaccounted _ _ _ hattempt)
      | ok _ => exact judged_snoc hm₂ hof (.generated _ _)

theorem executeCandidate_judged : Conforms (fun _ _ => True) (Judged candidate) []
    (executeCandidate costs taskID traceID candidate request attemptNumber) := by
  refine ⟨trivial, fun started => ⟨trivial, fun entropy => ⟨trivial, fun answer => ?_⟩⟩⟩
  cases answer with
  | error e => exact ⟨⟨rfl, rfl, rfl⟩, .unasked _ _⟩
  | ok reply =>
    obtain ⟨_ | _, state⟩ := reply
    · exact ⟨trivial, fun completed => ⟨⟨rfl, rfl, rfl⟩, .denied _ _⟩⟩
    change Conforms _ _ _ (findProvider candidate >>= _)
    refine conforms_bind (findProvider_unmarked rfl) ?_
    intro h found hm
    cases found with
    | error e =>
      exact ⟨trivial, fun completed => judged_snoc hm ⟨rfl, rfl, rfl⟩ (.unasked _ _)⟩
    | ok adapter =>
      refine ⟨trivial, fun answer => ⟨trivial, fun completed => ?_⟩⟩
      cases answer with
      | error e => exact failAttempt_judged (marks_snoc (marks_snoc hm)) ⟨rfl, rfl, rfl⟩
      | ok response =>
        exact accountAttempt_judged (marks_snoc (marks_snoc hm)) ⟨rfl, rfl, rfl⟩ rfl

theorem circuitKey_named (candidate : RouteCandidate) : circuitKey candidate ≠ "" := by
  unfold circuitKey
  split
  · simp [String.append_eq_empty_iff]
  · assumption

variable {b b' : Breaker}

/-- A turn asks the candidate's circuit; while it is open, no provider is called. -/
theorem executeCandidate_guarded {n : Int} (hrun : RunsTo breakerAnswers
      (executeCandidate costs taskID traceID candidate request n) b h b' outcome) :
    ∃ seen now state, Moved b seen ∧
      ⟨.allow (circuitKey candidate),
        .ok (decide (¬ seen.OpenAt now (circuitKey candidate)), state)⟩ ∈ h ∧
      (seen.OpenAt now (circuitKey candidate) → outcome.attempt.status = "SKIPPED_OPEN_CIRCUIT" ∧
        ∀ adapter q a, ⟨.generate adapter q, a⟩ ∉ h) := by
  obtain ⟨started, b₁, _, h₁, rfl, entropy, b₂, _, h₂, rfl, reply, b₃, rest, h₃, rfl, hrest⟩ := hrun
  obtain ⟨seen, now, hseen, hreply, -⟩ := h₃
  obtain ⟨snapshot, hallow⟩ := seen.allow_denies_iff now _ (circuitKey_named candidate)
  rw [hallow] at hreply
  subst hreply
  refine ⟨seen, now, snapshot.state, ?_, by simp [Except.map], fun hopen => ?_⟩
  · exact (breakerAnswers_moved h₁).trans ((breakerAnswers_moved h₂).trans hseen)
  simp only [hopen, not_true, decide_false, Except.map, Prod.map] at hrest
  obtain ⟨completed, b₄, _, -, rfl, rfl, -, rfl⟩ := hrest
  refine ⟨rfl, fun adapter q a hcall => ?_⟩
  simp only [mem_cons, not_mem_nil, or_false] at hcall
  rcases hcall with hcall | hcall | hcall | hcall <;> cases congrArg Sigma.fst hcall

structure Turn (σ : Type) where
  candidate : RouteCandidate
  before : σ
  events : RuntimeHistory
  after : σ
  outcome : Outcome

inductive Verdict
  | succeeds (response : ProviderResponse)
  | goesOn
  | stops

/-- A turn succeeds if the provider answered and the books were kept. The next candidate
is tried if the circuit was open, or if the provider failed for a while and the breaker
was told. -/
def verdict : List Mark → Verdict
  | [.generated response] => .succeeds response
  | [.denied] => .goesOn
  | [.failed true] => .goesOn
  | _ => .stops

def Turn.verdict {σ : Type} (x : Turn σ) : Verdict := ModelRuntime.verdict (marks x.events)

theorem Settles.verdict (hs : Settles ms outcome) :
    (∃ response, verdict ms = .succeeds response ∧ outcome.error = none ∧
      outcome.response = some response) ∨
    ∃ e, outcome.error = some e ∧ ((verdict ms = .goesOn ∧ outcome.retryable = true) ∨
      (verdict ms = .stops ∧ outcome.retryable = false)) := by
  cases hs with
  | generated attempt response => exact .inl ⟨response, rfl, rfl, rfl⟩
  | denied attempt e => exact .inr ⟨e, rfl, .inl ⟨rfl, rfl⟩⟩
  | failed attempt retryable e =>
    cases retryable
    · exact .inr ⟨e, rfl, .inr ⟨rfl, rfl⟩⟩
    · exact .inr ⟨e, rfl, .inl ⟨rfl, rfl⟩⟩
  | unasked attempt e | untold attempt e | unaccounted attempt response e =>
    exact .inr ⟨e, rfl, .inr ⟨rfl, rfl⟩⟩

section

variable {σ : Type} {answers : σ → (q : RuntimeRequest) → RuntimeAnswer q → σ → Prop} {s s' : σ}

/-- Each turn begins in the state in which the one before it ended. -/
def Linked : σ → List (Turn σ) → σ → Prop
  | s, [], s' => s' = s
  | s, x :: turns, s' => x.before = s ∧ Linked x.after turns s'

/-- The turns of a loop that begins with the candidate of this index. -/
structure Turns (costs : Bool) (taskID traceID : String) (request : ProviderRequest)
    (answers : σ → (q : RuntimeRequest) → RuntimeAnswer q → σ → Prop)
    (candidates : List RouteCandidate) (index : Nat) (s : σ) (h : RuntimeHistory) (s' : σ)
    (turns : List (Turn σ)) : Prop where
  order : turns.map Turn.candidate <+: candidates
  events : h = turns.flatMap Turn.events
  linked : Linked s turns s'
  each : ∀ n x, turns[n]? = some x →
    RunsTo answers (executeCandidate costs taskID traceID x.candidate request
      ((index + n : Nat) + 1)) x.before x.events x.after x.outcome

/-- The last turn succeeds or stops the run, or all candidates had theirs. -/
def Concludes (candidates : List RouteCandidate) (index : Nat) (turns : List (Turn σ))
    (attempts : List Attempt) (r : RunResult × Option RunError) : Prop :=
  (∃ before last, turns = before ++ [last] ∧ (∀ x ∈ before, x.verdict = .goesOn) ∧
    ((∃ response, last.verdict = .succeeds response ∧
        r = (⟨last.candidate, some response, attempts, 0 < index + before.length⟩, none)) ∨
      (last.verdict = .stops ∧ ∃ e, last.outcome.error = some e ∧
        r = (⟨last.candidate, none, attempts, 0 < index + before.length⟩, some e)))) ∨
  ((∀ x ∈ turns, x.verdict = .goesOn) ∧ turns.map Turn.candidate = candidates ∧
    ∃ e, r = (⟨zeroCandidate, none, attempts, 1 < attempts.length⟩, some e))

variable {candidates : List RouteCandidate} {turns : List (Turn σ)} {index : Nat}

theorem Turns.cons {x : Turn σ}
    (hx : RunsTo answers (executeCandidate costs taskID traceID x.candidate request (index + 1))
      x.before x.events x.after x.outcome)
    (hrest : Turns costs taskID traceID request answers candidates (index + 1) x.after h s' turns) :
    Turns costs taskID traceID request answers (x.candidate :: candidates) index x.before
      (x.events ++ h) s' (x :: turns) where
  order := (prefix_cons_inj x.candidate).mpr hrest.order
  events := by rw [hrest.events, flatMap_cons]
  linked := ⟨rfl, hrest.linked⟩
  each := by
    rintro (_ | n) y hy
    · cases hy
      exact hx
    · have hn : index + (n + 1) = index + 1 + n := by omega
      rw [hn]
      exact hrest.each n y hy

theorem Turns.nil (candidates : List RouteCandidate) :
    Turns costs taskID traceID request answers candidates index s [] s [] where
  order := nil_prefix
  events := rfl
  linked := rfl
  each := fun n y hy => by cases hy

theorem Concludes.cons {x : Turn σ} {attempts : List Attempt} {r : RunResult × Option RunError}
    (hx : x.verdict = .goesOn) (h : Concludes candidates (index + 1) turns attempts r) :
    Concludes (x.candidate :: candidates) index (x :: turns) attempts r := by
  rcases h with ⟨before, last, rfl, hbefore, hlast⟩ | ⟨hall, horder, hr⟩
  · refine .inl ⟨x :: before, last, rfl, forall_mem_cons.mpr ⟨hx, hbefore⟩, ?_⟩
    have hlen : index + (x :: before).length = index + 1 + before.length := by
      rw [length_cons]
      omega
    rw [hlen]
    exact hlast
  · exact .inr ⟨forall_mem_cons.mpr ⟨hx, hall⟩, by rw [map_cons, horder], hr⟩

theorem executeCandidates_turns :
    ∀ {index : Nat} {attempts : List Attempt} {lastErr : Option RunError} {s : σ}
      {h : RuntimeHistory} {r : RunResult × Option RunError},
      RunsTo answers (executeCandidates costs taskID traceID request candidates index attempts
        lastErr) s h s' r →
      ∃ turns, Turns costs taskID traceID request answers candidates index s h s' turns ∧
        Concludes candidates index turns
          (attempts ++ turns.map (fun x => x.outcome.attempt)) r := by
  induction candidates with
  | nil =>
    rintro index attempts lastErr s h r ⟨rfl, rfl, rfl⟩
    refine ⟨[], .nil [], .inr ⟨by simp, rfl, ?_⟩⟩
    rw [map_nil, append_nil]
    exact ⟨_, rfl⟩
  | cons candidate rest ih =>
    intro index attempts lastErr s h r hrun
    obtain ⟨h₁, h₂, s₁, outcome, rfl, hx, hrest⟩ := RunsTo.of_bind hrun
    have hlast := Turns.cons (x := ⟨candidate, s, h₁, s₁, outcome⟩) hx (.nil rest)
    rcases (executeCandidate_judged.of_runsTo hx).settles.verdict with
      ⟨response, hv, he, hresponse⟩ | ⟨e, he, ⟨hv, hr⟩ | ⟨hv, hr⟩⟩
    · simp only [he, hresponse] at hrest
      obtain ⟨rfl, rfl, rfl⟩ := hrest
      exact ⟨_, hlast, .inl ⟨[], _, rfl, by simp, .inl ⟨response, hv, rfl⟩⟩⟩
    · simp only [he, hr, if_true] at hrest
      obtain ⟨turns, hturns, hends⟩ := ih hrest
      rw [append_assoc] at hends
      exact ⟨_, Turns.cons (x := ⟨candidate, s, h₁, s₁, outcome⟩) hx hturns, hends.cons hv⟩
    · simp only [he, hr] at hrest
      obtain ⟨rfl, rfl, rfl⟩ := hrest
      exact ⟨_, hlast, .inl ⟨[], _, rfl, by simp, .inr ⟨hv, e, he, rfl⟩⟩⟩

end

/-- The breaker answers at once, and every provider generates. -/
def promptReply (b : Breaker) : (q : RuntimeRequest) → RuntimeAnswer q × Breaker
  | .now => ((1 : Time), b)
  | .entropy => (some "00", b)
  | .allow key => ((b.allow 1 key).1.map (Prod.map id Snapshot.state), (b.allow 1 key).2)
  | .getProvider _ => (.ok (), b)
  | .generate .. => (.ok ⟨"done", .nil, ⟨1, 1, 2⟩⟩, b)
  | .failure key => (.ok (b.failure 1 key).1.state, (b.failure 1 key).2)
  | .success key => (.ok (), b.success 1 key)
  | .getModel _ => (.error (.plain "no model"), b)
  | .recordModelUsage _ => (.ok (), b)

theorem promptReply_answers (b : Breaker) (q : RuntimeRequest) :
    breakerAnswers b q (promptReply b q).1 (promptReply b q).2 := by
  refine ⟨b, 1, .refl, ?_⟩
  cases q <;> first | rfl | exact ⟨rfl, rfl⟩

/-- The circuit of `a` is open. -/
def openedBreaker : Breaker where
  states := Function.update (fun _ => none) "a"
    (some ⟨"a", .open, 3, some 0, some 0, none, 0⟩)
  failureThreshold := 3
  cooldown := 60000000000

def chainedDecision : RouteDecision :=
  ⟨"r", "t", { zeroCandidate with deploymentID := "a", routeClass := "general" }, [], "",
    [{ zeroCandidate with deploymentID := "b" },
      { zeroCandidate with deploymentID := "c" }], "", "",
    1⟩

def chainedRun : Option (RuntimeHistory × Breaker × (RunResult × Option RunError)) :=
  runWith (fun b q => some (promptReply b q)) (execute false "t" "x" chainedDecision ⟨"", ""⟩)
    openedBreaker

end AiCloud.ModelRuntime
