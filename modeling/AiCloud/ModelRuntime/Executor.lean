import AiCloud.Lib.Program
import AiCloud.Tasks.Types

/-!
# The model runtime

`Execute` tries the selected candidate and then the fallback chain, each behind
its circuit breaker, until one succeeds or fails for good. The breaker, the
provider registry, the providers, the model catalogue and the cost ledger are
asked by requests.
-/
namespace AiCloud.ModelRuntime

open Lib Execution Tasks Prog

inductive ProviderErrorCode
  | providerUnavailable
  | providerTimeout
  | rateLimited
  | invalidOutput
  | schemaMismatch
  | unsafeOutput
  | contextTooLarge
  | costLimitExceeded
  | other (text : String)
  deriving DecidableEq

structure ProviderError where
  code : ProviderErrorCode
  message : String
  retryable : Bool
  deriving DecidableEq

/-- An error as `errors.As` and `errors.Is` see it through its wrappers. -/
structure RunError where
  message : String
  provider : Option ProviderError
  deadlineExceeded : Bool
  deriving DecidableEq

def RunError.plain (message : String) : RunError := ⟨message, none, false⟩

/-- The value of a field of type `any`; not every one can be encoded. -/
inductive AnyValue
  | nil
  | json (text : String)
  | unsupported (goType : String)
  deriving DecidableEq

structure TokenUsage where
  (inputTokens outputTokens totalTokens : Int)
  deriving DecidableEq

structure ProviderResponse where
  rawText : String
  structured : AnyValue
  tokenUsage : TokenUsage
  deriving DecidableEq

structure ProviderRequest where
  (requestID instruction : String)
  deriving DecidableEq

inductive CircuitState
  | closed
  | open
  | halfOpen
  | other (text : String)
  deriving DecidableEq

structure Attempt where
  (operationID attemptID modelID modelVersion deploymentID status : String)
  errorCode : ProviderErrorCode
  errorMessage : String
  retryable : Bool
  circuitState : CircuitState
  latencyMS : Int
  (startedAt completedAt : Time)
  deriving DecidableEq

structure RunResult where
  candidate : RouteCandidate
  response : Option ProviderResponse
  attempts : List Attempt
  fallback : Bool
  deriving DecidableEq

def zeroCandidate : RouteCandidate := ⟨"", "", "", "", "", "", 0, 0, []⟩

def RunResult.zero : RunResult := ⟨zeroCandidate, none, [], false⟩

structure PricingProfile where
  currency : String
  (inputPerMillion outputPerMillion cachedPerMillion serviceTierFactor : Rat)
  deriving DecidableEq

structure Model where
  (id version provider : String)
  pricing : PricingProfile
  deriving DecidableEq

structure ModelUsage where
  (taskID traceID provider modelID modelVersion deploymentID : String)
  pricing : PricingProfile
  usage : TokenUsage
  attempt : Int
  serviceTier : String
  deriving DecidableEq

inductive RuntimeRequest
  | now
  | entropy
  | allow (key : String)
  | getProvider (key : String)
  | generate (key : String) (request : ProviderRequest)
  | failure (key : String)
  | success (key : String)
  | getModel (id : String)
  | recordModelUsage (usage : ModelUsage)
  deriving DecidableEq

def RuntimeAnswer : RuntimeRequest → Type
  | .now => Time
  | .entropy => Option String
  | .allow _ => Except RunError (Bool × CircuitState)
  | .getProvider _ => Except RunError Unit
  | .generate .. => Except RunError ProviderResponse
  | .failure _ => Except RunError CircuitState
  | .success _ => Except RunError Unit
  | .getModel _ => Except RunError Model
  | .recordModelUsage _ => Except RunError Unit

abbrev RuntimeProg := Prog RuntimeRequest RuntimeAnswer

abbrev askNow : RuntimeProg Time := request (A := RuntimeAnswer) .now

abbrev askEntropy : RuntimeProg (Option String) := request (A := RuntimeAnswer) .entropy

variable (key : String)

abbrev askAllow : RuntimeProg (Except RunError (Bool × CircuitState)) :=
  request (A := RuntimeAnswer) (.allow key)

abbrev askProvider : RuntimeProg (Except RunError Unit) :=
  request (A := RuntimeAnswer) (.getProvider key)

abbrev askGenerate (request : ProviderRequest) : RuntimeProg (Except RunError ProviderResponse) :=
  Prog.request (A := RuntimeAnswer) (.generate key request)

abbrev askFailure : RuntimeProg (Except RunError CircuitState) :=
  request (A := RuntimeAnswer) (.failure key)

abbrev askSuccess : RuntimeProg (Except RunError Unit) :=
  request (A := RuntimeAnswer) (.success key)

abbrev askModel (id : String) : RuntimeProg (Except RunError Model) :=
  request (A := RuntimeAnswer) (.getModel id)

abbrev askRecordModelUsage (usage : ModelUsage) : RuntimeProg (Except RunError Unit) :=
  request (A := RuntimeAnswer) (.recordModelUsage usage)

/-- Microseconds from Go's zero time to the Unix epoch. -/
def unixEpoch : Time := 62135596800 * 1000000

def newPhysicalAttemptID (operationID : String) (attemptNumber : Int) (started : Time) :
    Option String → String
  | some entropy => operationID ++ ":attempt:" ++ entropy
  | none => operationID ++ ":attempt:" ++ toString ((started - unixEpoch) * 1000) ++ ":" ++
      toString attemptNumber

def ProviderError.isRetryable (e : ProviderError) : Bool :=
  e.retryable || e.code = .providerUnavailable || e.code = .providerTimeout || e.code = .rateLimited

def classify (e : RunError) : ProviderErrorCode × Bool :=
  match e.provider with
  | some providerErr => (providerErr.code, providerErr.isRetryable)
  | none => if e.deadlineExceeded then (.providerTimeout, true) else (.other "", false)

/-- What `executeCandidate` returns. -/
structure Outcome where
  attempt : Attempt
  response : Option ProviderResponse
  retryable : Bool
  error : Option RunError
  deriving DecidableEq

/-- The provider of the deployment, or else of the model. -/
def findProvider (candidate : RouteCandidate) : RuntimeProg (Except RunError String) := do
  let providerKey := if candidate.deploymentID = "" then candidate.modelID
    else candidate.deploymentID
  match ← askProvider providerKey with
  | .ok _ => pure (.ok providerKey)
  | .error e =>
    if candidate.deploymentID = "" then pure (.error e)
    else match ← askProvider candidate.modelID with
      | .ok _ => pure (.ok candidate.modelID)
      | .error e => pure (.error e)

/-- After a failed call: classify the error and tell the breaker of retryable ones. -/
def failAttempt (breakerKey : String) (attempt : Attempt) (e : RunError) : RuntimeProg Outcome := do
  let (code, retryable) := classify e
  let attempt := { attempt with
    status := "FAILED", errorCode := code, errorMessage := e.message, retryable := retryable }
  if retryable then
    match ← askFailure breakerKey with
    | .error breakerErr => pure ⟨attempt, none, false, some breakerErr⟩
    | .ok state => pure ⟨{ attempt with circuitState := state }, none, retryable, some e⟩
  else pure ⟨attempt, none, retryable, some e⟩

variable (costs : Bool)

/-- After a successful call: close the breaker and record the usage. An error of
this bookkeeping is the candidate's error. -/
def accountAttempt (taskID traceID breakerKey : String) (candidate : RouteCandidate)
    (attemptNumber : Int) (attempt : Attempt) (response : ProviderResponse) :
    RuntimeProg Outcome := do
  match ← askSuccess breakerKey with
  | .error e => pure ⟨attempt, none, false, some e⟩
  | .ok _ =>
    let attempt := { attempt with status := "SUCCEEDED", circuitState := .closed }
    if costs then
      match ← askModel candidate.modelID with
      | .error e => pure ⟨attempt, none, false, some e⟩
      | .ok model =>
        match ← askRecordModelUsage {
            taskID := taskID, traceID := traceID, provider := model.provider, modelID := model.id
            modelVersion := model.version, deploymentID := candidate.deploymentID
            pricing := model.pricing, usage := response.tokenUsage, attempt := attemptNumber
            serviceTier := candidate.serviceTier } with
        | .error e => pure ⟨attempt, none, false, some e⟩
        | .ok _ => pure ⟨attempt, some response, false, none⟩
    else pure ⟨attempt, some response, false, none⟩

def callProvider (taskID traceID breakerKey adapter : String)
    (candidate : RouteCandidate) (request : ProviderRequest) (attemptNumber : Int)
    (attempt : Attempt) : RuntimeProg Outcome := do
  let answer ← askGenerate adapter request
  let completed ← askNow
  let attempt := { attempt with
    completedAt := completed, latencyMS := (completed - attempt.startedAt).tdiv 1000 }
  match answer with
  | .error e => failAttempt breakerKey attempt e
  | .ok response =>
    accountAttempt costs taskID traceID breakerKey candidate attemptNumber attempt response

/-- The circuit of a candidate is its deployment's, or else its model version's. -/
def circuitKey (candidate : RouteCandidate) : String :=
  if candidate.deploymentID = "" then candidate.modelID ++ "@" ++ candidate.modelVersion
  else candidate.deploymentID

def executeCandidate (taskID traceID : String) (candidate : RouteCandidate)
    (request : ProviderRequest) (attemptNumber : Int) : RuntimeProg Outcome := do
  let started ← askNow
  let operationID := if request.requestID = "" then taskID else request.requestID
  let entropy ← askEntropy
  let attempt : Attempt := {
    operationID := operationID
    attemptID := newPhysicalAttemptID operationID attemptNumber started entropy
    modelID := candidate.modelID, modelVersion := candidate.modelVersion
    deploymentID := candidate.deploymentID, status := "STARTED", errorCode := .other ""
    errorMessage := "", retryable := false, circuitState := .other "", latencyMS := 0
    startedAt := started, completedAt := 0 }
  let breakerKey := circuitKey candidate
  match ← askAllow breakerKey with
  | .error e => pure ⟨attempt, none, false, some e⟩
  | .ok (allowed, state) =>
    let attempt := { attempt with circuitState := state }
    if allowed then
      match ← findProvider candidate with
      | .error e =>
        let completed ← askNow
        pure ⟨{ attempt with
          status := "FAILED", errorMessage := e.message, completedAt := completed }, none, false,
          some e⟩
      | .ok adapter =>
        callProvider costs taskID traceID breakerKey adapter candidate request attemptNumber attempt
    else
      let completed ← askNow
      pure ⟨{ attempt with
        status := "SKIPPED_OPEN_CIRCUIT", retryable := true, completedAt := completed }, none, true,
        some (.plain ("circuit breaker is open for " ++ breakerKey))⟩

def executeCandidates (costs : Bool) (taskID traceID : String) (request : ProviderRequest) :
    List RouteCandidate → Nat → List Attempt → Option RunError →
      RuntimeProg (RunResult × Option RunError)
  | [], _, attempts, lastErr => pure (⟨zeroCandidate, none, attempts, 1 < attempts.length⟩,
      some (lastErr.getD (.plain "no executable route candidate")))
  | candidate :: rest, index, attempts, _ => do
    let outcome ← executeCandidate costs taskID traceID candidate request (index + 1)
    let attempts := attempts ++ [outcome.attempt]
    match outcome.error with
    | none => pure (⟨candidate, outcome.response, attempts, 0 < index⟩, none)
    | some e =>
      if outcome.retryable then
        executeCandidates costs taskID traceID request rest (index + 1) attempts (some e)
      else pure (⟨candidate, none, attempts, 0 < index⟩, some e)

/-- `Execute`; `costs` says whether a cost ledger is configured. -/
def execute (taskID traceID : String) (decision : RouteDecision)
    (request : ProviderRequest) : RuntimeProg (RunResult × Option RunError) :=
  if taskID = "" ∨ traceID = "" then pure (.zero, some (.plain "task ID and trace ID are required"))
  else if decision.selected.routeClass = "deterministic" then
    pure ({ RunResult.zero with candidate := decision.selected }, none)
  else executeCandidates costs taskID traceID request
    (decision.selected :: decision.fallbackChain) 0 [] none

end AiCloud.ModelRuntime
