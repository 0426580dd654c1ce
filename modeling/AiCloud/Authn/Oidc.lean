import AiCloud.Authn.KeySet

/-!
# The token verifier

`OIDCVerifier.Verify`: one bearer token is taken from the request, its header checked, its
signature verified with a key of the remote key set, its claims validated against the
configuration and the clock, and a principal made of them.
-/
namespace AiCloud.Authn

open Lib Text Identity List

inductive AuthnError
  | bearerRequired
  | tokenInvalid (detail : String)
  | tokenExpired
  | tokenNotYetValid
  | systemPrincipal
  | invalidPrincipal (e : IdentityError)
  deriving DecidableEq

structure OIDCConfig where
  (issuer audience jwksURL : String)
  allowedAlgorithms : List String
  (tenantClaim projectClaim rolesClaim capabilitiesClaim principalTypeClaim sessionClaim : String)
  (clockSkew jwksCacheTTL : Nanos)

def defaultClaimName (value fallback : String) : String :=
  if trimSpace value = "" then fallback else trimSpace value

def defaultJWKSCache : Nanos := 300 * 1000000000
def defaultClockSkew : Nanos := 60 * 1000000000

def normalizeConfig (cfg : OIDCConfig) : OIDCConfig where
  issuer := trimSpace cfg.issuer
  audience := trimSpace cfg.audience
  jwksURL := trimSpace cfg.jwksURL
  allowedAlgorithms := normalizeStrings cfg.allowedAlgorithms
  tenantClaim := defaultClaimName cfg.tenantClaim "tenant_id"
  projectClaim := defaultClaimName cfg.projectClaim "project_id"
  rolesClaim := defaultClaimName cfg.rolesClaim "roles"
  capabilitiesClaim := defaultClaimName cfg.capabilitiesClaim "capabilities"
  principalTypeClaim := defaultClaimName cfg.principalTypeClaim "principal_type"
  sessionClaim := defaultClaimName cfg.sessionClaim "sid"
  clockSkew := if cfg.clockSkew ≤ 0 then defaultClockSkew else cfg.clockSkew
  jwksCacheTTL := if cfg.jwksCacheTTL ≤ 0 then defaultJWKSCache else cfg.jwksCacheTTL

def maxTokenBytes : Nat := 16 * 1024

def bearerToken (values : List String) : Except AuthnError String :=
  match values with
  | [value] =>
    match fields value with
    | [scheme, token] =>
      if Json.foldName scheme ≠ Json.foldName "Bearer" ∨ token = "" then .error .bearerRequired
      else if maxTokenBytes < token.utf8ByteSize then
        .error (.tokenInvalid "bearer token is too large")
      else .ok token
    | _ => .error .bearerRequired
  | _ => .error .bearerRequired

def claim (claims : Claims) (name : String) : Option Value :=
  (claims.find? (fun entry => entry.1 = name)).map Prod.snd

def claimString (claims : Claims) (name : String) : Option String :=
  match claim claims name with
  | some (.text s) => some (trimSpace s)
  | _ => none

/-- The entries of an audience list, which must all be nonblank texts. -/
def audienceItems : List Value → Option (List String)
  | [] => some []
  | .text s :: rest =>
    if trimSpace s = "" then none else (audienceItems rest).map (trimSpace s :: ·)
  | _ :: _ => none

def claimAudienceList : Option Value → Option (List String)
  | some (.text s) => if trimSpace s = "" then none else some [trimSpace s]
  | some (.list items) =>
    match audienceItems items with
    | none => none
    | some items => if items = [] then none else some (normalizeStrings items)
  | _ => none

def textItems : List Value → Option (List String)
  | [] => some []
  | .text s :: rest => (textItems rest).map (s :: ·)
  | _ :: _ => none

/-- A claim that is no list of texts counts as an empty one. -/
def claimStringList : Option Value → List String
  | some (.text s) => normalizeStrings (fieldsFunc (fun c => c = ' ' ∨ c = ',') s)
  | some (.list items) => normalizeStrings ((textItems items).getD [])
  | _ => []

variable (lib : Library)

/-- The instant of a date claim; `none` when the claim is absent. -/
def numericDate : Option Value → Except AuthnError (Option Nanos)
  | none => .ok none
  | some .null => .ok none
  | some (.number (some seconds)) => .ok (some (UnixTime.fromSeconds lib.round seconds))
  | some _ => .error (.tokenInvalid "")

def invalidToken {α : Type} : Except AuthnError α := .error (.tokenInvalid "")

variable (cfg : OIDCConfig)

/-- The dates of a token against the clock. -/
def validateDates (now : Nanos) (claims : Claims) : Except AuthnError Unit :=
  match numericDate lib (claim claims "exp") with
  | .error _ => invalidToken
  | .ok none => invalidToken
  | .ok (some expiry) =>
    if expiry + cfg.clockSkew < now then .error .tokenExpired
    else match numericDate lib (claim claims "nbf") with
      | .error _ => invalidToken
      | .ok nbf =>
        if nbf.any (fun nbf => now + cfg.clockSkew < nbf) then .error .tokenNotYetValid
        else match numericDate lib (claim claims "iat") with
          | .error _ => invalidToken
          | .ok none => .ok ()
          | .ok (some iat) =>
            if now + cfg.clockSkew < iat then .error .tokenNotYetValid
            else if expiry < iat then invalidToken
            else .ok ()

def validateClaims (now : Nanos) (claims : Claims) : Except AuthnError Unit :=
  if claimString claims "iss" ≠ some cfg.issuer then invalidToken
  else match claimAudienceList (claim claims "aud") with
    | none => invalidToken
    | some audiences =>
      if cfg.audience ∉ audiences then invalidToken
      else if (claimString claims "sub").getD "" = "" then invalidToken
      else validateDates lib cfg now claims

def principalType (text : String) : PrincipalType :=
  if text = "user" then .user
  else if text = "service_account" then .serviceAccount
  else if text = "system" then .system
  else .other text

def claimedType (claims : Claims) : PrincipalType :=
  match claimString claims cfg.principalTypeClaim with
  | none => .user
  | some value => if value = "" then .user else principalType value

def principalFromClaims (claims : Claims) : Except AuthnError Principal :=
  let type := claimedType cfg claims
  if type = .system then .error .systemPrincipal
  else if type ≠ .user ∧ type ≠ .serviceAccount then invalidToken
  else
    let principal : Principal := {
      type := type
      subjectID := (claimString claims "sub").getD ""
      tenantID := (claimString claims cfg.tenantClaim).getD ""
      projectID := (claimString claims cfg.projectClaim).getD ""
      roles := claimStringList (claim claims cfg.rolesClaim)
      capabilities := claimStringList (claim claims cfg.capabilitiesClaim)
      authnMethod := "oidc_jwt"
      issuer := cfg.issuer
      sessionID := (claimString claims cfg.sessionClaim).getD ""
      purpose := "" }
    match validate principal with
    | .error e => .error (.invalidPrincipal e)
    | .ok _ => .ok principal

def segments (raw : String) : List String := (Path.split '.' raw.toList).map String.ofList

def decodeHeader (segment : String) : Option JwtHeader :=
  (lib.base64 segment).bind lib.header

def decodeClaims (segment : String) : Option Claims :=
  (lib.base64 segment).bind lib.claims

def verifyToken (out : Outside) (raw : String) (s : State) : Except AuthnError Principal × State :=
  match segments raw with
  | [headerText, payload, signature] =>
    if headerText = "" ∨ payload = "" ∨ signature = "" then (invalidToken, s)
    else match decodeHeader lib headerText with
      | none => (invalidToken, s)
      | some header =>
        if header.kid = "" ∨ header.crit ≠ [] ∨ header.alg ∉ cfg.allowedAlgorithms then
          (invalidToken, s)
        else match verify lib out header.alg header.kid
          (headerText ++ "." ++ payload) signature s with
          | (.error _, s) => (invalidToken, s)
          | (.ok _, s) =>
            match decodeClaims lib payload with
            | none => (invalidToken, s)
            | some claims =>
              match validateClaims lib cfg out.claimsAt claims with
              | .error e => (.error e, s)
              | .ok _ => (principalFromClaims cfg claims, s)
  | _ => (invalidToken, s)

/-- `authorization` holds the values of the request's Authorization header. -/
def verifyRequest (out : Outside) (authorization : List String)
    (s : State) : Except AuthnError Principal × State :=
  match bearerToken authorization with
  | .error e => (.error e, s)
  | .ok raw => verifyToken lib cfg out raw s

structure OIDCVerifier where
  cfg : OIDCConfig
  keys : State

structure DiscoveryDocument where
  (issuer jwksURI : String)

inductive SetupError
  | config (text : String)
  | keys (e : KeyError)
  deriving DecidableEq

def supportedAlgorithm (alg : String) : Bool := alg = "RS256" ∨ alg = "RS384" ∨ alg = "RS512"

def discover (fetched : Except String DiscoveryDocument) : Except SetupError DiscoveryDocument :=
  match fetched with
  | .error cause => .error (.config ("OIDC discovery failed: " ++ cause))
  | .ok document =>
    if document.issuer = "" ∨ document.jwksURI = "" then
      .error (.config "OIDC discovery response is incomplete")
    else .ok document

/-- Where the keys are: configured, or discovered from the issuer. -/
def keysURL (discovery : Except String DiscoveryDocument) : Except SetupError String :=
  if cfg.jwksURL ≠ "" then .ok cfg.jwksURL
  else match discover discovery with
    | .error e => .error e
    | .ok document =>
      if document.issuer ≠ cfg.issuer then .error (.config "OIDC discovery issuer mismatch")
      else .ok document.jwksURI

/-- `httpsURL` is the test for an absolute HTTPS URL without user information. -/
def newOIDCVerifier (httpsURL : String → Bool) (cfg : OIDCConfig)
    (discovery : Except String DiscoveryDocument) (fetched : Except String JwksDocument)
    (now : Nanos) : Except SetupError OIDCVerifier :=
  let cfg := normalizeConfig cfg
  if httpsURL cfg.issuer = false then .error (.config "issuer must be an absolute HTTPS URL")
  else if cfg.audience = "" then .error (.config "audience is required")
  else
    let cfg :=
      if cfg.allowedAlgorithms = [] then { cfg with allowedAlgorithms := ["RS256"] } else cfg
    match cfg.allowedAlgorithms.find? (fun alg => !supportedAlgorithm alg) with
    | some alg => .error (.config ("unsupported JWT signing algorithm \"" ++ alg ++ "\""))
    | none =>
      match keysURL cfg discovery with
      | .error e => .error e
      | .ok url =>
        if httpsURL url = false then .error (.config "jwks_url must be an absolute HTTPS URL")
        else match refresh lib fetched now
          (newRemoteKeySet cfg.jwksCacheTTL cfg.allowedAlgorithms) with
          | (.error e, _) => .error (.keys e)
          | (.ok _, keys) => .ok ⟨cfg, keys⟩

structure Call where
  out : Outside
  authorization : List String

def OIDCVerifier.verify (v : OIDCVerifier) (call : Call) :
    Except AuthnError Principal × OIDCVerifier :=
  match verifyRequest lib v.cfg call.out call.authorization v.keys with
  | (result, keys) => (result, { v with keys := keys })

/-- The verifier after some requests. -/
def OIDCVerifier.after (v : OIDCVerifier) (calls : List Call) : OIDCVerifier :=
  calls.foldl (fun v call => (v.verify lib call).2) v

end AiCloud.Authn
