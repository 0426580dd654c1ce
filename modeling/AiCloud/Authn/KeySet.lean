import AiCloud.Lib.Json
import AiCloud.Lib.Path
import AiCloud.Lib.UnixTime
import AiCloud.Identity.Principal

/-!
# The remote key set

The cache of signing keys behind the token verifier: a JWKS document is fetched, its
acceptable RSA keys are stored under their ids together with the end of their lifetime,
and a key is looked up in the cache before the key server is asked. Every clock reading
and every answer of the key server is an input.
-/
namespace AiCloud.Authn

/-- Instants and durations in nanoseconds. -/
abbrev Nanos := Int

abbrev Bytes := List Nat

structure PublicKey where
  (n e : Nat)

def PublicKey.bitLen (key : PublicKey) : Nat := if key.n = 0 then 0 else key.n.log2 + 1

inductive Hash
  | sha256
  | sha384
  | sha512

structure JwtHeader where
  (alg kid : String)
  crit : List String

/-- A claim of a token. A number comes as the float64 of its text, if it has one. -/
inductive Value
  | null
  | bool (b : Bool)
  | text (s : String)
  | number (float : Option Rat)
  | list (items : List Value)
  | object

abbrev Claims := List (String × Value)

/-- What the standard library does: base64 and JSON decoding, the RSA check of a signature
over a hashed text, and the rounding of a float64 product. -/
structure Library where
  base64 : String → Option Bytes
  header : Bytes → Option JwtHeader
  claims : Bytes → Option Claims
  verifyPKCS1v15 : PublicKey → Hash → String → Bytes → Bool
  round : Rat → Rat
  round_near : ∀ x, |x| < 1000000000 → |round x - x| < 1

structure Jwk where
  (kty kid use alg n e : String)

structure JwksDocument where
  keys : List Jwk

inductive KeyError
  | tokenInvalid
  | refreshFailed (cause : String)
  | duplicateKid (kid : String)
  | noAcceptableKeys
  | noMatchingKey
  | signature
  deriving DecidableEq

/-- Big-endian bytes as a number. -/
def ofBytes (bytes : Bytes) : Nat := bytes.foldl (fun n b => n * 256 + b) 0

variable (lib : Library)

def rsaPublicKey (encodedN encodedE : String) : Option PublicKey :=
  match lib.base64 encodedN with
  | none => none
  | some nBytes =>
    if nBytes = [] then none
    else match lib.base64 encodedE with
      | none => none
      | some eBytes =>
        if eBytes = [] ∨ 4 < eBytes.length then none
        else if ofBytes eBytes < 3 ∨ ofBytes eBytes % 2 = 0 then none
        else some ⟨ofBytes nBytes, ofBytes eBytes⟩

def digestForAlgorithm (alg : String) : Option Hash :=
  if alg = "RS256" then some .sha256
  else if alg = "RS384" then some .sha384
  else if alg = "RS512" then some .sha512
  else none

structure RemoteKeySet where
  cacheTTL : Nanos
  algorithms : List String
  keys : List (String × PublicKey)
  keysUntil : Nanos

/-- The key set with a log: how often the key server was asked, and which documents were
stored at which clock reading. -/
structure State where
  set : RemoteKeySet
  fetches : Nat
  stored : List (Nanos × JwksDocument)

def newRemoteKeySet (cacheTTL : Nanos) (algorithms : List String) : State :=
  ⟨⟨cacheTTL, algorithms, [], 0⟩, 0, []⟩

def RemoteKeySet.key (s : RemoteKeySet) (kid : String) : Option PublicKey :=
  (s.keys.find? (fun entry => entry.1 = kid)).map Prod.snd

/-- The key of an entry that may sign, if the entry is one. -/
def acceptableKey (algorithms : List String) (item : Jwk) : Option PublicKey :=
  if item.kty ≠ "RSA" ∨ item.kid = "" ∨ (item.use ≠ "" ∧ item.use ≠ "sig") then none
  else if item.alg ≠ "" ∧ item.alg ∉ algorithms then none
  else match rsaPublicKey lib item.n item.e with
    | none => none
    | some key => if key.bitLen < 2048 then none else some key

/-- The loop of `refresh` over the entries of a document. -/
def collect (lib : Library) (algorithms : List String) :
    List Jwk → List (String × PublicKey) → Except KeyError (List (String × PublicKey))
  | [], keys => .ok keys
  | item :: rest, keys =>
    match acceptableKey lib algorithms item with
    | none => collect lib algorithms rest keys
    | some key =>
      if item.kid ∈ keys.map Prod.fst then .error (.duplicateKid item.kid)
      else collect lib algorithms rest (keys ++ [(item.kid, key)])

/-- `fetched` is what the key server answers, `now` the clock when the keys are stored. -/
def refresh (fetched : Except String JwksDocument) (now : Nanos) (s : State) :
    Except KeyError Unit × State :=
  let s := { s with fetches := s.fetches + 1 }
  match fetched with
  | .error cause => (.error (.refreshFailed cause), s)
  | .ok document =>
    match collect lib s.set.algorithms document.keys [] with
    | .error e => (.error e, s)
    | .ok keys =>
      if keys = [] then (.error .noAcceptableKeys, s)
      else (.ok (), { s with
        set := { s.set with keys := keys, keysUntil := now + s.set.cacheTTL }
        stored := s.stored ++ [(now, document)] })

/-- The outside of one call: the clock at the cache lookup, the key server's answer should
it be asked, and the clock when that answer is stored and when the claims are checked. -/
structure Outside where
  lookupAt : Nanos
  fetched : Except String JwksDocument
  (storedAt claimsAt : Nanos)

def keyFor (out : Outside) (kid : String) (forceRefresh : Bool) (s : State) :
    Except KeyError PublicKey × State :=
  let cached :=
    if forceRefresh = false ∧ out.lookupAt < s.set.keysUntil then s.set.key kid else none
  match cached with
  | some key => (.ok key, s)
  | none =>
    match refresh lib out.fetched out.storedAt s with
    | (.error e, s) => (.error e, s)
    | (.ok _, s) =>
      match s.set.key kid with
      | none => (.error .noMatchingKey, s)
      | some key => (.ok key, s)

def verify (out : Outside) (alg kid signingInput encodedSignature : String)
    (s : State) : Except KeyError Unit × State :=
  match lib.base64 encodedSignature with
  | none => (.error .tokenInvalid, s)
  | some signature =>
    match keyFor lib out kid false s with
    | (.error e, s) => (.error e, s)
    | (.ok key, s) =>
      match digestForAlgorithm alg with
      | none => (.error .tokenInvalid, s)
      | some hash =>
        if lib.verifyPKCS1v15 key hash signingInput signature then (.ok (), s)
        else (.error .signature, s)

end AiCloud.Authn
