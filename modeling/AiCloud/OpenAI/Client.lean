import Mathlib.Data.Rat.Defs
import AiCloud.Lib.Text

/-!
# The OpenAI-compatible client

`HTTPClient.Generate` prepares a chat completion and posts it until an attempt
succeeds or the retry policy gives up. What becomes of each attempt is a sequence of
outcomes; encoding and the secret store are parameters.
-/
namespace AiCloud.OpenAI

open Lib Text

structure CompatibleRequest where
  (model systemPrompt instruction contextText outputSchema : String)
  maxOutputTokens : Int
  temperature : Rat
  timeoutSeconds : Int

structure CompatibleResponse where
  (outputText finishReason : String)
  (inputTokens outputTokens : Int)
  deriving DecidableEq

structure ChatCompletionMessage where
  (role content : String)

/-- `responseFormat` is empty for a request that asks for no format. -/
structure ChatCompletionRequest where
  model : String
  messages : List ChatCompletionMessage
  temperature : Rat
  maxTokens : Int
  stream : Bool
  responseFormat : String

/-- `HTTPBuildError` and `HTTPClientError`, which both are a code and a message. -/
inductive ClientError
  | build (code message : String)
  | http (code message : String)
  deriving DecidableEq

def ClientError.text : ClientError → String
  | .build code message => code ++ ": " ++ message
  | .http code message => code ++ ": " ++ message

def buildUserMessage (req : CompatibleRequest) : String :=
  "\n\n".intercalate ( ["instruction:\n" ++ trimSpace req.instruction] ++
    (if Blank req.contextText then [] else ["context:\n" ++ trimSpace req.contextText]) ++
    (if Blank req.outputSchema then [] else ["outputSchema:\n" ++ trimSpace req.outputSchema]) ++
    ["Return only raw JSON. Do not wrap output in markdown fences."])

def buildChatCompletionRequest (req : CompatibleRequest) :
    Except ClientError ChatCompletionRequest :=
  if Blank req.model then .error (.build "MissingModel" "model is required")
  else if Blank req.instruction then .error (.build "MissingInstruction" "instruction is required")
  else .ok
    { model := trimSpace req.model
      messages :=
        (if Blank req.systemPrompt then [] else [⟨"system", trimSpace req.systemPrompt⟩]) ++
          [⟨"user", buildUserMessage req⟩]
      temperature := req.temperature
      maxTokens := req.maxOutputTokens
      stream := false
      responseFormat := if Blank req.outputSchema then "" else "json_object" }

def trimRight (cut : Char) (s : String) : String :=
  String.ofList (s.toList.reverse.dropWhile (· = cut)).reverse

def buildChatCompletionsURL (endpoint : String) : Except ClientError String :=
  let endpoint := trimRight '/' (trimSpace endpoint)
  if endpoint = "" then .error (.build "MissingEndpoint" "endpoint is required")
  else .ok (endpoint ++ "/chat/completions")

/-- The part of a response body that is read. -/
structure ChatCompletionResponse where
  choices : List (String × String)
  (promptTokens completionTokens : Int)

/-- What becomes of one attempt; `decoded` is the body as JSON. -/
inductive HttpOutcome
  | buildFailed (message : String)
  | transportFailed (message : String)
  | responded (status : Int) (body : String) (decoded : Except String ChatCompletionResponse)

/-- One attempt: its result, and the status code the retry policy is asked about. -/
def doOnce : HttpOutcome → Except ClientError CompatibleResponse × Int
  | .buildFailed message => (.error (.http "RequestBuildFailed" message), 0)
  | .transportFailed message => (.error (.http "RequestFailed" message), 0)
  | .responded status body decoded =>
    if status < 200 ∨ 300 ≤ status then
      (.error (.http "Non2xxResponse" ("status=" ++ toString status ++ " body=" ++ body)), status)
    else match decoded with
      | .error message => (.error (.http "ResponseDecodeFailed" message), status)
      | .ok response =>
        match response.choices with
        | [] => (.error (.http "MissingChoices" "response choices are empty"), status)
        | (content, finishReason) :: _ =>
          (.ok ⟨content, finishReason, response.promptTokens, response.completionTokens⟩, status)

structure RetryPolicy where
  maxRetries : Int

structure RetryDecision where
  retry : Bool
  reason : String

def newRetryPolicy (maxRetries : Int) : RetryPolicy :=
  ⟨if maxRetries < 0 then 0 else maxRetries⟩

variable (statusCode : Int)

def isRetryableStatus : Bool :=
  statusCode = 429 || statusCode = 408 || statusCode = 502 || statusCode = 503 || statusCode = 504

/-- `failed` says that there was an error. -/
def RetryPolicy.shouldRetry (p : RetryPolicy) (attempt : Nat) (statusCode : Int) (failed : Bool) :
    RetryDecision :=
  if p.maxRetries ≤ attempt then ⟨false, "max retries reached"⟩
  else if failed = true ∧ statusCode = 0 then ⟨true, "transport error"⟩
  else if isRetryableStatus statusCode then ⟨true, "retryable status"⟩
  else ⟨false, "not retryable"⟩

/-- A failure the policy takes for a transport error or a retryable status. -/
def Transient : Prop := statusCode = 0 ∨ isRetryableStatus statusCode = true

instance : Decidable (Transient statusCode) :=
  inferInstanceAs (Decidable (_ ∨ _))

theorem shouldRetry_iff (p : RetryPolicy) (attempt : Nat) (statusCode : Int) :
    (p.shouldRetry attempt statusCode true).retry = true ↔
      (attempt : Int) < p.maxRetries ∧ Transient statusCode := by
  unfold RetryPolicy.shouldRetry Transient
  by_cases hmax : p.maxRetries ≤ attempt
  · have hnot : ¬ (attempt : Int) < p.maxRetries := by omega
    simp [hmax, hnot]
  · have hlt : (attempt : Int) < p.maxRetries := by omega
    by_cases hzero : statusCode = 0
    · simp [hmax, hzero, hlt]
    · by_cases hstatus : isRetryableStatus statusCode = true
      · simp [hmax, hzero, hstatus, hlt]
      · simp [hmax, hzero, hstatus]

/-- The attempts from one on, with the number of the last one made. -/
def retryLoop (p : RetryPolicy) (outcomes : Nat → HttpOutcome) (attempt : Nat) :
    Nat × Except ClientError CompatibleResponse :=
  match doOnce (outcomes attempt) with
  | (.ok response, _) => (attempt, .ok response)
  | (.error e, statusCode) =>
    if hretry : (p.shouldRetry attempt statusCode true).retry = true then
      retryLoop p outcomes (attempt + 1)
    else (attempt, .error e)
termination_by (p.maxRetries - attempt).toNat
decreasing_by
  have hlt := ((shouldRetry_iff p attempt statusCode).mp hretry).1
  omega

/-- `secret` is what the secret store answers for the configured reference. -/
structure HTTPClient where
  endpoint : String
  maxRetries : Int
  secret : Except String String
  marshal : ChatCompletionRequest → Except String String

variable (c : HTTPClient)

/-- The policy `NewHTTPClient` gives a client. -/
def HTTPClient.retryPolicy : RetryPolicy := newRetryPolicy c.maxRetries

theorem HTTPClient.maxRetries_nonneg : 0 ≤ c.retryPolicy.maxRetries := by
  unfold retryPolicy newRetryPolicy
  split <;> simp_all

/-- What an attempt is made with: the URL, the key and the payload. -/
structure Prepared where
  (url apiKey payload : String)
  deriving DecidableEq

variable (req : CompatibleRequest)

def HTTPClient.prepare : Except ClientError Prepared := do
  let body ← buildChatCompletionRequest req
  let url ← buildChatCompletionsURL c.endpoint
  match c.secret with
  | .error message => .error (.http "SecretResolveFailed" message)
  | .ok apiKey =>
    if apiKey = "" then .error (.http "EmptySecret" "resolved secret is empty")
    else match c.marshal body with
      | .error message => .error (.http "RequestMarshalFailed" message)
      | .ok payload => .ok ⟨url, apiKey, payload⟩

variable (outcomes : Nat → HttpOutcome)

def HTTPClient.generate : Except ClientError CompatibleResponse :=
  match c.prepare req with
  | .error e => .error e
  | .ok _ => (retryLoop c.retryPolicy outcomes 0).2

/-- The attempt fails in a way the policy would retry. -/
def FailsTransiently (outcome : HttpOutcome) : Prop :=
  ∃ e statusCode, doOnce outcome = (.error e, statusCode) ∧ Transient statusCode

/-- The last failure of the call was one the policy treats as retryable; a call that
failed before its first attempt has none. -/
def FinalFailureRetryable : Prop :=
  (∃ prepared, c.prepare req = .ok prepared) ∧
    FailsTransiently (outcomes (retryLoop c.retryPolicy outcomes 0).1)

/-- Every attempt the policy allows for fails in a way it would retry. -/
def Unavailable : Prop :=
  (∃ prepared, c.prepare req = .ok prepared) ∧
    ∀ attempt : Nat, (attempt : Int) ≤ c.retryPolicy.maxRetries →
      FailsTransiently (outcomes attempt)

theorem retryLoop_stops (p : RetryPolicy) (outcomes : Nat → HttpOutcome) (attempt : Nat) :
    attempt ≤ (retryLoop p outcomes attempt).1 ∧
      (∀ k, attempt ≤ k → k < (retryLoop p outcomes attempt).1 →
        (k : Int) < p.maxRetries ∧ FailsTransiently (outcomes k)) ∧
      (FailsTransiently (outcomes (retryLoop p outcomes attempt).1) →
        p.maxRetries ≤ (retryLoop p outcomes attempt).1) := by
  fun_induction retryLoop p outcomes attempt with
  | case1 attempt response status hdone =>
    refine ⟨le_refl _, fun k hk hlt => absurd hlt (by omega), ?_⟩
    rintro ⟨e, code, hfail, -⟩
    rw [hdone] at hfail
    cases hfail
  | case2 attempt e status hdone hretry ih =>
    obtain ⟨hmax, htransient⟩ := (shouldRetry_iff p attempt status).mp hretry
    obtain ⟨hle, hbefore, hlast⟩ := ih
    refine ⟨by omega, ?_, hlast⟩
    intro k hk hlt
    by_cases hfirst : k = attempt
    · subst hfirst
      exact ⟨hmax, e, status, hdone, htransient⟩
    · exact hbefore k (by omega) hlt
  | case3 attempt e status hdone hretry =>
    refine ⟨le_refl _, fun k hk hlt => absurd hlt (by omega), ?_⟩
    rintro ⟨e', code, hfail, htransient⟩
    rw [hdone] at hfail
    cases hfail
    by_contra hmore
    exact hretry ((shouldRetry_iff p attempt status).mpr ⟨by omega, htransient⟩)

/-- A call ends with a retryable failure if and only if all its attempts had one. -/
theorem finalFailureRetryable_iff :
    FinalFailureRetryable c req outcomes ↔ Unavailable c req outcomes := by
  have hmax := c.maxRetries_nonneg
  obtain ⟨-, hbefore, hlast⟩ := retryLoop_stops c.retryPolicy outcomes 0
  refine and_congr_right (fun _ => ?_)
  constructor
  · intro hfinal attempt hattempt
    have hend := hlast hfinal
    by_cases hlt : attempt < (retryLoop c.retryPolicy outcomes 0).1
    · exact (hbefore attempt (by omega) hlt).2
    · -- the attempts before the last are below the maximum, so this is the last
      have hsame : attempt = (retryLoop c.retryPolicy outcomes 0).1 := by omega
      exact hsame ▸ hfinal
  · intro hall
    apply hall
    by_cases hzero : (retryLoop c.retryPolicy outcomes 0).1 = 0
    · omega
    · have hprev := (hbefore ((retryLoop c.retryPolicy outcomes 0).1 - 1) (by omega) (by omega)).1
      omega

end AiCloud.OpenAI
