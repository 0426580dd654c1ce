import AiCloud.Lib.Schedule
import AiCloud.ModelRuntime.Executor
import AiCloud.OpenAI.Client

/-!
# The OpenAI-compatible provider

`Provider.Generate` wraps the client for the model runtime. Every failure of the client
becomes an unavailable provider that may be retried, also one that the client's own
retry policy had given up as hopeless; the runtime then trips the breaker and falls
back.
-/
namespace AiCloud.OpenAI

open Lib Text

open ModelRuntime (ProviderError ProviderErrorCode AnyValue TokenUsage RunError Attempt
  RuntimeRequest RuntimeAnswer failAttempt)

structure ProviderRequest where
  (requestID taskType instruction userIntent outputSchemaName outputSchemaVersion : String)
  maxOutputTokens : Int
  temperature : Rat

/-- The latency is left out. -/
structure ProviderResponse where
  (requestID providerName modelName taskType rawText : String)
  structured : AnyValue
  finishReason : String
  tokenUsage : TokenUsage
  validationHints : List String

structure Provider where
  (name defaultModel : String)
  (timeoutSeconds maxOutputTokens : Int)
  client : Option HTTPClient
  parser : Option (String → String → String → Except String AnyValue)

variable (req : ProviderRequest)

def validateRequest : Except ProviderError Unit :=
  if req.requestID = "" then .error ⟨.invalidOutput, "requestId is required", false⟩
  else if req.taskType = "" then .error ⟨.invalidOutput, "taskType is required", false⟩
  else if req.outputSchemaName = "" then
    .error ⟨.schemaMismatch, "output schema is required", false⟩
  else .ok ()

def buildSystemPrompt : String :=
  "You are an infrastructure planning model. Return only structured output for schema: " ++
    req.outputSchemaName ++ ". Do not suggest direct execution."

def renderContext : String :=
  if req.userIntent ≠ "" then "userIntent: " ++ req.userIntent else ""

def chooseMaxOutputTokens (requested providerMax : Int) : Int :=
  let providerMax := if providerMax ≤ 0 then 2048 else providerMax
  if 0 < requested ∧ requested < providerMax then requested else providerMax

def chooseTemperature (requested : Rat) : Rat := if 0 ≤ requested then requested else 0

def Provider.mapProviderRequest (p : Provider) (req : ProviderRequest) : CompatibleRequest where
  model := p.defaultModel
  systemPrompt := buildSystemPrompt req
  instruction := req.instruction
  contextText := renderContext req
  outputSchema := req.outputSchemaName
  maxOutputTokens := chooseMaxOutputTokens req.maxOutputTokens p.maxOutputTokens
  temperature := chooseTemperature req.temperature
  timeoutSeconds := p.timeoutSeconds

def normalizeClientError (e : ClientError) : ProviderError := ⟨.providerUnavailable, e.text, true⟩

def Provider.parseStructuredOutput (p : Provider) (req : ProviderRequest) (raw : String) :
    Except String AnyValue :=
  match p.parser with
  | none => .error "InvalidOutput: structured parser is not configured"
  | some parse => parse req.outputSchemaName req.outputSchemaVersion raw

def tokenUsage (resp : CompatibleResponse) : TokenUsage :=
  ⟨resp.inputTokens, resp.outputTokens, resp.inputTokens + resp.outputTokens⟩

/-- The response with the error returned beside it. -/
def Provider.generate (p : Provider) (req : ProviderRequest) (outcomes : Nat → HttpOutcome) :
    Option ProviderResponse × Option ProviderError :=
  match p.client with
  | none => (none, some ⟨.providerUnavailable, "client is not configured", false⟩)
  | some client =>
    match validateRequest req with
    | .error e => (none, some e)
    | .ok _ =>
      let apiReq := p.mapProviderRequest req
      match client.generate apiReq outcomes with
      | .error e => (none, some (normalizeClientError e))
      | .ok apiResp =>
        let response : ProviderResponse :=
          ⟨req.requestID, p.name, apiReq.model, req.taskType, apiResp.outputText, .nil,
            apiResp.finishReason, tokenUsage apiResp, []⟩
        match p.parseStructuredOutput req apiResp.outputText with
        | .error message =>
          (some { response with validationHints := ["structured output parse failed"] },
            some ⟨.invalidOutput, message, true⟩)
        | .ok structured => (some { response with structured := structured }, none)

/-- After this error the runtime tells the breaker of a failure, and falls back if the
breaker answers. -/
def TripsAndFallsBack (breakerKey : String) (attempt : Attempt) (err : ProviderError) : Prop :=
  ∀ message h outcome,
    Prog.RunsTo (fun _ _ _ _ => True) (failAttempt breakerKey attempt ⟨message, some err, false⟩)
      () h () outcome → ∃ answer, h = [⟨.failure breakerKey, answer⟩] ∧
      (outcome.retryable = true ↔ ∃ state, answer = Except.ok state)

theorem tripsAndFallsBack_iff (breakerKey : String) (attempt : Attempt) (err : ProviderError) :
    TripsAndFallsBack breakerKey attempt err ↔ err.isRetryable = true := by
  constructor
  · intro htrips
    by_contra hnot
    have hquiet : Prog.RunsTo (fun _ _ _ _ => True)
        (failAttempt breakerKey attempt ⟨"", some err, false⟩) () [] ()
          ⟨{ attempt with
            status := "FAILED", errorCode := err.code, errorMessage := "",
            retryable := err.isRetryable }, none, err.isRetryable, some ⟨"", some err, false⟩⟩ := by
      simp [failAttempt, ModelRuntime.classify, hnot]
    obtain ⟨answer, hnil, -⟩ := htrips "" [] _ hquiet
    cases hnil
  · intro hretryable message h outcome hrun
    simp only [failAttempt, ModelRuntime.classify, hretryable, if_true] at hrun
    obtain ⟨answer, _, rest, -, rfl, hrest⟩ := hrun
    cases answer with
    | error breakerErr =>
      obtain ⟨rfl, -, rfl⟩ := hrest
      exact ⟨_, rfl, by simp⟩
    | ok state =>
      obtain ⟨rfl, -, rfl⟩ := hrest
      exact ⟨_, rfl, fun _ => ⟨state, rfl⟩, fun _ => rfl⟩

variable {e : ClientError}

theorem generate_of_client_error {p : Provider} {client : HTTPClient}
    (hclient : p.client = some client) {req : ProviderRequest} (hreq : validateRequest req = .ok ())
    {outcomes : Nat → HttpOutcome}
    (hfail : client.generate (p.mapProviderRequest req) outcomes = .error e) :
    p.generate req outcomes = (none, some (normalizeClientError e)) := by
  unfold Provider.generate
  simp only [hclient, hreq, hfail]

/-- Where the client fails, the provider's error is marked retryable, and the runtime trips
the breaker and falls back, for exactly the failures the client's policy would retry if
and only if everything before the first attempt succeeds and every attempt the policy
allows for fails in such a way. -/
theorem client_failure_marked_iff (p : Provider) {client : HTTPClient}
    (hclient : p.client = some client) (req : ProviderRequest)
    (hreq : validateRequest req = .ok ()) {outcomes : Nat → HttpOutcome} {e : ClientError}
    (hfail : client.generate (p.mapProviderRequest req) outcomes = .error e) :
    ∃ err, p.generate req outcomes = (none, some err) ∧ ((err.retryable = true ↔
          FinalFailureRetryable client (p.mapProviderRequest req) outcomes) ↔
        Unavailable client (p.mapProviderRequest req) outcomes) ∧ ∀ breakerKey attempt,
        (TripsAndFallsBack breakerKey attempt err ↔
            FinalFailureRetryable client (p.mapProviderRequest req) outcomes) ↔
          Unavailable client (p.mapProviderRequest req) outcomes := by
  have hfinal := finalFailureRetryable_iff client (p.mapProviderRequest req) outcomes
  refine ⟨normalizeClientError e, generate_of_client_error hclient hreq hfail, ?_, ?_⟩
  · have hmarked : (normalizeClientError e).retryable = true := rfl
    rw [hfinal]
    simp [hmarked]
  · intro breakerKey attempt
    have htrips : TripsAndFallsBack breakerKey attempt (normalizeClientError e) :=
      (tripsAndFallsBack_iff breakerKey attempt _).mpr rfl
    rw [hfinal]
    simp [htrips]

def sampleClient : HTTPClient := ⟨"http://model", 0, .ok "key", fun _ => .ok "payload"⟩

def sampleProvider : Provider := ⟨"model", "m", 30, 0, some sampleClient, none⟩

def sampleRequest : ProviderRequest := ⟨"request", "plan", "plan it", "", "Plan", "v1", 0, 0⟩

theorem sample_prepared : sampleClient.prepare (sampleProvider.mapProviderRequest sampleRequest) =
    .ok ⟨"http://model/chat/completions", "key", "payload"⟩ := by
  decide

theorem sample_fails {outcome : HttpOutcome} {statusCode : Int}
    (h : doOnce outcome = (.error e, statusCode)) :
    retryLoop sampleClient.retryPolicy (fun _ => outcome) 0 = (0, .error e) := by
  rw [retryLoop, h]
  rfl

theorem sample_generate (outcome : HttpOutcome) {statusCode : Int}
    (h : doOnce outcome = (.error e, statusCode)) :
    sampleClient.generate (sampleProvider.mapProviderRequest sampleRequest) (fun _ => outcome) =
      .error e := by
  unfold HTTPClient.generate
  rw [sample_prepared, sample_fails h]

/-- A refused connection is marked retryable, as the policy has it. -/
theorem refused_connection_marked :
    ∃ err, sampleProvider.generate sampleRequest (fun _ => .transportFailed "refused") =
        (none, some err) ∧ (err.retryable = true ↔
        FinalFailureRetryable sampleClient (sampleProvider.mapProviderRequest sampleRequest)
          (fun _ => .transportFailed "refused")) := by
  obtain ⟨err, hgenerate, hmarked, -⟩ := client_failure_marked_iff sampleProvider rfl
    sampleRequest rfl (sample_generate (.transportFailed "refused") rfl)
  refine ⟨err, hgenerate, hmarked.mpr ⟨⟨_, sample_prepared⟩, ?_⟩⟩
  intro attempt _
  exact ⟨_, 0, rfl, Or.inl rfl⟩

/-- A key that the server does not accept is marked retryable, and the runtime trips the
breaker and falls back. -/
theorem unauthorized_marked_retryable :
    ∃ err, sampleProvider.generate sampleRequest (fun _ => .responded 401 "" (.error "")) =
        (none, some err) ∧ err.retryable = true ∧
      ¬ FinalFailureRetryable sampleClient (sampleProvider.mapProviderRequest sampleRequest)
        (fun _ => .responded 401 "" (.error "")) ∧
      ∀ breakerKey attempt, TripsAndFallsBack breakerKey attempt err := by
  have hfail : doOnce (.responded 401 "" (.error "")) =
      (.error (.http "Non2xxResponse" "status=401 body="), 401) := by decide
  refine ⟨_, generate_of_client_error rfl rfl (sample_generate _ hfail), rfl, ?_, ?_⟩
  · rintro ⟨-, e, statusCode, hlast, htransient⟩
    rw [hfail] at hlast
    cases hlast
    revert htransient
    decide
  · intro breakerKey attempt
    exact (tripsAndFallsBack_iff breakerKey attempt _).mpr rfl

end AiCloud.OpenAI
