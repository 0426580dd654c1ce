import AiCloud.Authn.CachedKeys
import AiCloud.Lib.Base64
import AiCloud.Lib.Transaction

/-!
# What an accepted request proves

Whatever happened to a verifier before, a principal it returns rests on one bearer
token, signed with a key that the key server listed not longer than one cache lifetime
ago, for this issuer and audience and at this time. Whether a key's declared algorithm
is the header's is not asked, and nothing bounds how many tokens name a key that is not
cached.
-/
namespace AiCloud.Authn

open Lib Text UnixTime Identity List

variable {lib : Library} {cfg : OIDCConfig}

/-- The seconds of a date claim that is a number. -/
def dateSeconds (claims : Claims) (name : String) : Option Rat :=
  match claim claims name with
  | some (.number (some seconds)) => some seconds
  | _ => none

/-- The entries of an audience claim; one that is no list is its own entry. -/
def audienceEntries : Value → List Value
  | .list entries => entries
  | value => [value]

/-- The claims are meant for this verifier now. Texts are read without surrounding blanks,
dates to two nanoseconds and as far as an instant exists. -/
structure ValidClaims (cfg : OIDCConfig) (now : Nanos) (claims : Claims) : Prop where
  issuer : ∃ text, claim claims "iss" = some (.text text) ∧ trimSpace text = cfg.issuer
  audience : ∃ value text, claim claims "aud" = some value ∧ .text text ∈ audienceEntries value ∧
    trimSpace text = cfg.audience
  expiry : ∃ seconds, dateSeconds claims "exp" = some seconds ∧
    (InRange seconds → (now : Rat) < seconds * 1000000000 + cfg.clockSkew + 2)
  notBefore : ∀ seconds, dateSeconds claims "nbf" = some seconds → InRange seconds →
    seconds * 1000000000 < now + cfg.clockSkew + 2
  issuedAt : ∀ seconds, dateSeconds claims "iat" = some seconds → InRange seconds →
    seconds * 1000000000 < now + cfg.clockSkew + 2

/-- An authenticated external caller. -/
structure External (p : Principal) : Prop where
  type : p.type = .user ∨ p.type = .serviceAccount
  subject : p.subjectID ≠ ""
  tenant : p.tenantID ≠ ""

/-- A token with what it decodes to. -/
structure Token where
  (scheme raw headerText payload signature : String)
  header : JwtHeader
  claims : Claims

/-- The signature verifies under the key, with the digest that the header names. -/
def Token.Signed (lib : Library) (t : Token) (key : PublicKey) : Prop :=
  ∃ hash bytes, digestForAlgorithm t.header.alg = some hash ∧ lib.base64 t.signature = some bytes ∧
    lib.verifyPKCS1v15 key hash (t.headerText ++ "." ++ t.payload) bytes = true

/-- The evidence behind a principal; `stored` are the documents stored so far. -/
structure Evidence (lib : Library) (cfg : OIDCConfig) (stored : List (Nanos × JwksDocument))
    (call : Call) (p : Principal) (t : Token) : Prop where
  single : ∃ value, call.authorization = [value] ∧ fields value = [t.scheme, t.raw]
  bearer : Json.foldName t.scheme = Json.foldName "Bearer"
  parts : segments t.raw = [t.headerText, t.payload, t.signature]
  header : decodeHeader lib t.headerText = some t.header
  algorithm : t.header.alg ∈ cfg.allowedAlgorithms
  signed : ∃ key hash bytes, FreshKey lib call.out cfg.jwksCacheTTL stored t.header.kid key ∧
    digestForAlgorithm t.header.alg = some hash ∧ lib.base64 t.signature = some bytes ∧
    lib.verifyPKCS1v15 key hash (t.headerText ++ "." ++ t.payload) bytes = true
  claims : decodeClaims lib t.payload = some t.claims
  valid : ValidClaims cfg call.out.claimsAt t.claims
  principal : External p

theorem bearerToken_ok {values : List String} {raw : String} (h : bearerToken values = .ok raw) :
    ∃ value scheme, values = [value] ∧ fields value = [scheme, raw] ∧
      Json.foldName scheme = Json.foldName "Bearer" := by
  unfold bearerToken at h
  split at h
  · rename_i value
    split at h
    · rename_i scheme token hfields
      simp only [except_guard_ok, not_or, not_not] at h
      obtain ⟨⟨hbearer, _⟩, _, ⟨⟩⟩ := h
      exact ⟨value, scheme, rfl, hfields, hbearer⟩
    · cases h
  · cases h

variable {claims : Claims}

theorem claimString_some {name text : String} (h : claimString claims name = some text) :
    ∃ raw, claim claims name = some (.text raw) ∧ trimSpace raw = text := by
  unfold claimString at h
  split at h
  · rename_i raw hraw
    cases h
    exact ⟨raw, hraw, rfl⟩
  · cases h

variable {item : String}

theorem audienceItems_mem {values : List Value} {items : List String}
    (h : audienceItems values = some items) (hmem : item ∈ items) :
    ∃ text, .text text ∈ values ∧ trimSpace text = item := by
  induction values generalizing items with
  | nil =>
    cases h
    cases hmem
  | cons value rest ih =>
    cases value with
    | text s =>
      simp only [audienceItems] at h
      split at h
      · cases h
      obtain ⟨tail, htail, rfl⟩ := Option.map_eq_some_iff.mp h
      rcases mem_cons.mp hmem with rfl | hin
      · exact ⟨s, mem_cons_self, rfl⟩
      · obtain ⟨text, hin', heq⟩ := ih htail hin
        exact ⟨text, mem_cons_of_mem _ hin', heq⟩
    | _ => cases h

theorem normalizeStrings_mem {values : List String} (h : item ∈ normalizeStrings values) :
    ∃ value ∈ values, trimSpace value = item := by
  have hfold : ∀ (out : List String), item ∈ values.foldl (fun out value =>
      if trimSpace value = "" ∨ trimSpace value ∈ out then out else out ++ [trimSpace value]) out →
      item ∈ out ∨ ∃ value ∈ values, trimSpace value = item := by
    clear h
    induction values with
    | nil => exact fun out => .inl
    | cons value rest ih =>
      intro out hout
      rcases ih _ hout with hin | ⟨found, hin, heq⟩
      · dsimp only at hin
        split at hin
        · exact .inl hin
        · rcases mem_append.mp hin with hold | hnew
          · exact .inl hold
          · exact .inr ⟨value, mem_cons_self, (mem_singleton.mp hnew).symm⟩
      · exact .inr ⟨found, mem_cons_of_mem _ hin, heq⟩
  rcases hfold [] h with hnil | hfound
  · cases hnil
  · exact hfound

theorem claimAudienceList_mem {value : Option Value} {audiences : List String}
    (h : claimAudienceList value = some audiences) (hmem : item ∈ audiences) :
    ∃ found text, value = some found ∧ .text text ∈ audienceEntries found ∧
      trimSpace text = item := by
  unfold claimAudienceList at h
  split at h
  · rename_i s
    split at h
    · cases h
    cases h
    exact ⟨.text s, s, rfl, mem_cons_self, (mem_singleton.mp hmem).symm⟩
  · rename_i entries
    split at h
    · cases h
    rename_i items hitems
    split at h
    · cases h
    cases h
    obtain ⟨value, hvalue, htrim⟩ := normalizeStrings_mem hmem
    obtain ⟨text, htext, rfl⟩ := audienceItems_mem hitems hvalue
    rw [trimSpace_trimSpace] at htrim
    exact ⟨.list entries, text, rfl, htext, htrim⟩
  · cases h

/-- The instant of a number of seconds, read to two nanoseconds. -/
theorem numericDate_seconds {name : String} {date : Option Nanos}
    (h : numericDate lib (claim claims name) = .ok date) {seconds : Rat}
    (hseconds : dateSeconds claims name = some seconds) :
    date = some (fromSeconds lib.round seconds) := by
  unfold dateSeconds at hseconds
  split at hseconds
  · rename_i found hclaim
    cases hseconds
    rw [hclaim] at h
    cases h
    rfl
  · cases hseconds

theorem numericDate_some {name : String} {date : Nanos}
    (h : numericDate lib (claim claims name) = .ok (some date)) :
    ∃ seconds, dateSeconds claims name = some seconds ∧ date = fromSeconds lib.round seconds := by
  unfold dateSeconds
  cases hclaim : claim claims name with
  | none =>
    rw [hclaim] at h
    cases h
  | some value =>
    rw [hclaim] at h
    cases value with
    | number float =>
      cases float with
      | none => cases h
      | some seconds =>
        cases h
        exact ⟨seconds, rfl, rfl⟩
    | _ => cases h

variable {now : Nanos} {u : Unit}

/-- The instants a valid token has, and how they lie to the clock. -/
theorem validateDates_ok (h : validateDates lib cfg now claims = .ok u) :
    ∃ expiry nbf iat, numericDate lib (claim claims "exp") = .ok (some expiry) ∧
      now ≤ expiry + cfg.clockSkew ∧
      numericDate lib (claim claims "nbf") = .ok nbf ∧ (∀ t ∈ nbf, t ≤ now + cfg.clockSkew) ∧
      numericDate lib (claim claims "iat") = .ok iat ∧ ∀ t ∈ iat, t ≤ now + cfg.clockSkew := by
  unfold validateDates at h
  split at h
  · cases h
  · cases h
  rename_i expiry hexp
  split at h
  · cases h
  rename_i hexpired
  split at h
  · cases h
  rename_i nbf hnbf
  split at h
  · cases h
  rename_i hbefore
  have hnbf' : ∀ t ∈ nbf, t ≤ now + cfg.clockSkew := by
    intro t ht
    by_contra hlt
    refine hbefore ?_
    rw [ht]
    simpa using hlt
  split at h
  · cases h
  · rename_i hiat
    exact ⟨expiry, nbf, none, hexp, not_lt.mp hexpired, hnbf, hnbf', hiat, fun t ht => by cases ht⟩
  · rename_i iat hiat
    split at h
    · cases h
    rename_i hlate
    refine ⟨expiry, nbf, some iat, hexp, not_lt.mp hexpired, hnbf, hnbf', hiat, fun t ht => ?_⟩
    cases ht
    exact not_lt.mp hlate

theorem seconds_lt {seconds : Rat} {date bound : Nanos}
    (hdate : date = fromSeconds lib.round seconds)
    (hle : date ≤ bound) (hrange : InRange seconds) : seconds * 1000000000 < bound + 2 := by
  have hnear := abs_lt.mp (fromSeconds_near lib.round_near hrange)
  rw [← hdate] at hnear
  have hle' : (date : Rat) ≤ bound := by exact_mod_cast hle
  linarith

theorem validateClaims_ok (h : validateClaims lib cfg now claims = .ok u) :
    ValidClaims cfg now claims := by
  unfold validateClaims at h
  split at h
  · cases h
  rename_i hiss
  split at h
  · cases h
  rename_i audiences haud
  simp only [invalidToken, except_guard_ok, not_not] at h
  obtain ⟨hmem, _, h⟩ := h
  obtain ⟨expiry, nbf, iat, hexp, hexpired, hnbf, hnbf', hiat, hiat'⟩ := validateDates_ok h
  refine ⟨?_, ?_, ?_, ?_, ?_⟩
  · exact claimString_some (not_not.mp hiss)
  · exact claimAudienceList_mem haud hmem
  · obtain ⟨seconds, hseconds, hdate⟩ := numericDate_some hexp
    refine ⟨seconds, hseconds, fun hrange => ?_⟩
    have hnear := abs_lt.mp (fromSeconds_near lib.round_near hrange)
    rw [← hdate] at hnear
    have hle : (now : Rat) ≤ expiry + cfg.clockSkew := by exact_mod_cast hexpired
    linarith
  · intro seconds hseconds hrange
    have hdate := numericDate_seconds hnbf hseconds
    have := seconds_lt rfl (hnbf' _ hdate) hrange
    push_cast at this
    exact this
  · intro seconds hseconds hrange
    have hdate := numericDate_seconds hiat hseconds
    have := seconds_lt rfl (hiat' _ hdate) hrange
    push_cast at this
    exact this

variable {p : Principal}

theorem principalFromClaims_ok (h : principalFromClaims cfg claims = .ok p) : External p := by
  unfold principalFromClaims at h
  simp only [invalidToken, except_guard_ok] at h
  obtain ⟨_, htype, h⟩ := h
  split at h
  · cases h
  rename_i hvalid
  cases h
  have htypes : claimedType cfg claims = .user ∨ claimedType cfg claims = .serviceAccount := by
    by_contra hneither
    exact htype (not_or.mp hneither)
  exact ⟨htypes, ne_empty (validate_ok hvalid).1, ne_empty (validate_tenant hvalid htypes)⟩

theorem verify_ok {out : Outside} {alg kid input encoded : String} {s s' : State}
    (h : verify lib out alg kid input encoded s = (.ok u, s')) :
    ∃ key hash bytes, keyFor lib out kid false s = (.ok key, s') ∧
      digestForAlgorithm alg = some hash ∧ lib.base64 encoded = some bytes ∧
      lib.verifyPKCS1v15 key hash input bytes = true := by
  unfold verify at h
  split at h
  · cases h
  rename_i bytes hbytes
  split at h
  · cases h
  rename_i key t hkey
  split at h
  · cases h
  rename_i hash hhash
  split at h
  · rename_i hvalid
    cases h
    exact ⟨key, hash, bytes, hkey, hhash, hbytes, hvalid⟩
  · cases h

/-- Verification changes the key set as a key lookup does, or not at all. -/
theorem verify_state (lib : Library) (out : Outside) (alg kid input encoded : String) (s : State) :
    (verify lib out alg kid input encoded s).2 = s ∨
      (verify lib out alg kid input encoded s).2 = (keyFor lib out kid false s).2 := by
  unfold verify
  split
  · exact .inl rfl
  rcases keyFor lib out kid false s with ⟨result, t⟩
  cases result with
  | error e => exact .inr rfl
  | ok key =>
    dsimp only
    split
    · exact .inr rfl
    · split <;> exact .inr rfl

/-- A token is turned away at once, or its signature is verified and the rest follows. -/
theorem verifyToken_cases (lib : Library) (cfg : OIDCConfig) (out : Outside) (raw : String)
    (s : State) :
    (∃ e, verifyToken lib cfg out raw s = (.error e, s)) ∨
      ∃ headerText payload signature header, segments raw = [headerText, payload, signature] ∧
        decodeHeader lib headerText = some header ∧ header.alg ∈ cfg.allowedAlgorithms ∧
        let checked := verify lib out header.alg header.kid
          (headerText ++ "." ++ payload) signature s
        (verifyToken lib cfg out raw s).2 = checked.2 ∧
          ∀ p, (verifyToken lib cfg out raw s).1 = .ok p → checked.1 = .ok () ∧
            ∃ claims, decodeClaims lib payload = some claims ∧
              validateClaims lib cfg out.claimsAt claims = .ok () ∧
              principalFromClaims cfg claims = .ok p := by
  unfold verifyToken
  split
  · rename_i headerText payload signature hsegments
    split
    · exact .inl ⟨_, rfl⟩
    split
    · exact .inl ⟨_, rfl⟩
    rename_i header hheader
    split
    · exact .inl ⟨_, rfl⟩
    rename_i hadmitted
    have halg : header.alg ∈ cfg.allowedAlgorithms :=
      not_not.mp (fun hne => hadmitted (.inr (.inr hne)))
    refine .inr ⟨headerText, payload, signature, header, hsegments, hheader, halg, ?_⟩
    rcases verify lib out header.alg header.kid (headerText ++ "." ++ payload) signature s with
      ⟨result, t⟩
    cases result with
    | error e => exact ⟨rfl, fun p hp => by cases hp⟩
    | ok u =>
      dsimp only
      cases hclaims : decodeClaims lib payload with
      | none => exact ⟨rfl, fun p hp => by cases hp⟩
      | some claims =>
        dsimp only
        cases hvalid : validateClaims lib cfg out.claimsAt claims with
        | error e => exact ⟨rfl, fun p hp => by cases hp⟩
        | ok u' => exact ⟨rfl, fun p hp => ⟨rfl, claims, rfl, hvalid, hp⟩⟩
  · exact .inl ⟨_, rfl⟩

def tokenKid (lib : Library) (authorization : List String) : Option String :=
  match bearerToken authorization with
  | .error _ => none
  | .ok raw =>
    match segments raw with
    | [headerText, _, _] => (decodeHeader lib headerText).map JwtHeader.kid
    | _ => none

theorem verifyRequest_state (lib : Library) (cfg : OIDCConfig) (out : Outside)
    (authorization : List String) (s : State) : (verifyRequest lib cfg out authorization s).2 = s ∨
    ∃ kid, tokenKid lib authorization = some kid ∧
      (verifyRequest lib cfg out authorization s).2 = (keyFor lib out kid false s).2 := by
  unfold verifyRequest
  split
  · exact .inl rfl
  rename_i raw hraw
  rcases verifyToken_cases lib cfg out raw s with
    ⟨e, heq⟩ | ⟨_, _, _, header, hsegments, hheader, -, hstate, -⟩
  · rw [heq]
    exact .inl rfl
  · rw [hstate]
    have hkid : tokenKid lib authorization = some header.kid := by
      simp only [tokenKid, hraw, hsegments, hheader, Option.map_some]
    rcases verify_state lib out header.alg header.kid _ _ s with hsame | hkey
    · exact .inl hsame
    · exact .inr ⟨header.kid, hkid, hkey⟩

/-- A verifier whose key cache is accounted for. -/
structure OIDCVerifier.Sound (lib : Library) (v : OIDCVerifier) : Prop where
  cached : Cached lib v.keys
  ttl : v.keys.set.cacheTTL = v.cfg.jwksCacheTTL

variable {v : OIDCVerifier}

theorem newOIDCVerifier_ok {httpsURL : String → Bool}
    {discovery : Except String DiscoveryDocument} {fetched : Except String JwksDocument}
    (h : newOIDCVerifier lib httpsURL cfg discovery fetched now = .ok v) :
    refresh lib fetched now (newRemoteKeySet v.cfg.jwksCacheTTL v.cfg.allowedAlgorithms) =
      (.ok (), v.keys) ∧
    (v.cfg.allowedAlgorithms = ["RS256"] ∨
      v.cfg.allowedAlgorithms = normalizeStrings cfg.allowedAlgorithms) ∧
    ∀ a ∈ v.cfg.allowedAlgorithms, supportedAlgorithm a = true := by
  unfold newOIDCVerifier at h
  dsimp only at h
  iterate 2
    split at h
    · cases h
  split at h
  · cases h
  rename_i hfind
  iterate 3
    split at h
    · cases h
  rename_i u keys hkeys
  cases h
  refine ⟨hkeys, ?_, fun a ha => by simpa using find?_eq_none.mp hfind a ha⟩
  split
  · exact .inl rfl
  · exact .inr rfl

section

variable {httpsURL : String → Bool} {discovery : Except String DiscoveryDocument}
  {fetched : Except String JwksDocument}
  (hnew : newOIDCVerifier lib httpsURL cfg discovery fetched now = .ok v)

include hnew

theorem newOIDCVerifier_sound : v.Sound lib := by
  have hrefresh := refresh_refreshed lib fetched now
    (newRemoteKeySet v.cfg.jwksCacheTTL v.cfg.allowedAlgorithms)
  rw [(newOIDCVerifier_ok hnew).1] at hrefresh
  exact ⟨hrefresh.cached (.inr rfl), hrefresh.cacheTTL⟩

theorem newOIDCVerifier_traced : Traced lib v.cfg.allowedAlgorithms v.keys := by
  have hempty : Traced lib v.cfg.allowedAlgorithms
      (newRemoteKeySet v.cfg.jwksCacheTTL v.cfg.allowedAlgorithms) :=
    ⟨rfl, fun kid key hkey => by cases hkey⟩
  have htraced := hempty.refresh fetched now
  rwa [(newOIDCVerifier_ok hnew).1] at htraced

end

theorem after_cfg (v : OIDCVerifier) (calls : List Call) : (v.after lib calls).cfg = v.cfg := by
  unfold OIDCVerifier.after
  induction calls generalizing v with
  | nil => rfl
  | cons call rest ih => exact ih (v.verify lib call).2

/-- What every key lookup keeps, every sequence of requests keeps. -/
theorem after_keeps {P : State → Prop}
    (hkeep : ∀ s, P s → ∀ out kid, P (keyFor lib out kid false s).2) (hv : P v.keys)
    (calls : List Call) : P (v.after lib calls).keys := by
  unfold OIDCVerifier.after
  induction calls generalizing v with
  | nil => exact hv
  | cons call rest ih =>
    refine ih (show P (verifyRequest lib v.cfg call.out call.authorization v.keys).2 from ?_)
    rcases verifyRequest_state lib v.cfg call.out call.authorization v.keys with
      hsame | ⟨kid, -, hkey⟩
    · rw [hsame]
      exact hv
    · rw [hkey]
      exact hkeep _ hv _ _

theorem OIDCVerifier.Sound.after (hv : v.Sound lib) (calls : List Call) :
    (v.after lib calls).Sound lib := by
  obtain ⟨hcached, httl⟩ := after_keeps
    (P := fun s => Cached lib s ∧ s.set.cacheTTL = v.cfg.jwksCacheTTL) (fun s hs out kid => by
      obtain ⟨hcached, hsame, -⟩ := keyFor_spec hs.1 out kid
      exact ⟨hcached, hsame.trans hs.2⟩) ⟨hv.cached, hv.ttl⟩ calls
  exact ⟨hcached, by rw [after_cfg, httl]⟩

theorem OIDCVerifier.Sound.evidence {v' : OIDCVerifier} (hv : v.Sound lib) {call : Call}
    (h : v.verify lib call = (.ok p, v')) : ∃ t key, Evidence lib v.cfg v'.keys.stored call p t ∧
    keyFor lib call.out t.header.kid false v.keys = (.ok key, v'.keys) ∧ t.Signed lib key := by
  unfold OIDCVerifier.verify verifyRequest at h
  cases hbearer : bearerToken call.authorization with
  | error e =>
    simp only [hbearer] at h
    cases h
  | ok raw =>
    simp only [hbearer] at h
    obtain ⟨value, scheme, hvalues, hfields, hscheme⟩ := bearerToken_ok hbearer
    rcases verifyToken_cases lib v.cfg call.out raw v.keys with ⟨e, heq⟩ | hverified
    · rw [heq] at h
      cases h
    obtain ⟨headerText, payload, signature, header, hsegments, hheader, halg, hstate, hresult⟩ :=
      hverified
    have hp : (verifyToken lib v.cfg call.out raw v.keys).1 = .ok p := (Prod.mk.inj h).1
    obtain ⟨hchecked, claims, hclaims, hvalid, hprincipal⟩ := hresult p hp
    obtain ⟨key, hash, bytes, hkey, hsigned⟩ := verify_ok (Prod.ext hchecked hstate.symm)
    have hfresh := (keyFor_spec hv.cached call.out header.kid).2.2
    rw [hkey, hv.ttl] at hfresh
    rw [← (Prod.mk.inj h).2]
    exact ⟨⟨scheme, raw, headerText, payload, signature, header, claims⟩, key,
      ⟨⟨value, hvalues, hfields⟩, hscheme, hsegments, hheader, halg,
        ⟨key, hash, bytes, hfresh key rfl, hsigned⟩, hclaims, validateClaims_ok hvalid,
        principalFromClaims_ok hprincipal⟩, hkey, hash, bytes, hsigned⟩

section

variable {httpsURL : String → Bool} {discovery : Except String DiscoveryDocument}
  {fetched : Except String JwksDocument} {now : Nanos} {v : OIDCVerifier}
  (hnew : newOIDCVerifier lib httpsURL cfg discovery fetched now = .ok v)
  (calls : List Call) (call : Call) {p : Principal} {v' : OIDCVerifier}
  (h : (v.after lib calls).verify lib call = (.ok p, v'))

include hnew h

/-- After whatever requests, a principal is returned only on the evidence of a token. -/
theorem verified_principal_evidence : ∃ t, Evidence lib v.cfg v'.keys.stored call p t := by
  obtain ⟨t, -, ht, -⟩ := ((newOIDCVerifier_sound hnew).after calls).evidence h
  rw [after_cfg] at ht
  exact ⟨t, ht⟩

/-- The token was verified with a key that the key server listed under its key id, and no
entry that the key can have come from declares another algorithm than the token's. -/
def UsedAsDeclared (lib : Library) (cfg : OIDCConfig) (stored : List (Nanos × JwksDocument))
    (call : Call) (p : Principal) : Prop :=
  ∃ t key, Evidence lib cfg stored call p t ∧ t.Signed lib key ∧
    (∃ x ∈ stored, x.2.Offers lib cfg.allowedAlgorithms t.header.kid key) ∧
    ∀ x ∈ stored, ∀ item ∈ x.2.keys, item.kid = t.header.kid →
      acceptableKey lib cfg.allowedAlgorithms item = some key → item.alg ≠ "" →
        item.alg = t.header.alg

theorem usedAsDeclared_of_one
    (hone : ∀ a ∈ v.cfg.allowedAlgorithms, ∀ b ∈ v.cfg.allowedAlgorithms, a = b) :
    UsedAsDeclared lib v.cfg v'.keys.stored call p := by
  obtain ⟨t, key, ht, hkey, hsigned⟩ := ((newOIDCVerifier_sound hnew).after calls).evidence h
  have htraced := after_keeps (fun s hs out kid => (hs.keyFor out kid).1)
    (newOIDCVerifier_traced hnew) calls
  obtain ⟨⟨-, hoffers⟩, hfound⟩ := htraced.keyFor call.out t.header.kid
  rw [hkey] at hoffers hfound
  rw [after_cfg] at ht
  exact ⟨t, key, ht, hsigned, hoffers _ key (hfound key rfl), fun x _ item _ _ hitem hdeclared =>
    hone _ ((acceptableKey_some hitem).1 hdeclared) _ ht.algorithm⟩

end

/-- A token by its header, the text of its claims and what that text says. -/
structure SampleToken where
  (alg kid payload : String)
  entries : Claims

namespace SampleToken

variable (t : SampleToken)

def header : String := "\x7b\"alg\":\"" ++ t.alg ++ "\",\"kid\":\"" ++ t.kid ++ "\"\x7d"

def segment (text : String) : String := Base64.encode (Base64.bytes text)

def raw : String := segment t.header ++ "." ++ segment t.payload ++ "." ++ segment "sig"

variable (valid : Bool)

/-- The library, as far as the token goes. -/
def library : Library where
  base64 := Base64.decode
  header bytes := if bytes = Base64.bytes t.header then some ⟨t.alg, t.kid, []⟩ else none
  claims bytes := if bytes = Base64.bytes t.payload then some t.entries else none
  verifyPKCS1v15 _ _ _ _ := valid
  round := id
  round_near := by simp

theorem base64_encode {bytes : Bytes} (h : ∀ b ∈ bytes, b < 256) :
    (t.library valid).base64 (Base64.encode bytes) = some bytes :=
  Base64.decode_encode h

theorem segment_ne {text : String} (h : text ≠ "") : segment text ≠ "" := by
  intro hempty
  have hbytes := Base64.decode_encode (Base64.bytes_lt text)
  rw [show Base64.encode (Base64.bytes text) = "" from hempty] at hbytes
  have hnil : Base64.bytes text = [] := (Option.some.inj hbytes).symm
  have hdata : text.toByteArray.data = #[] := by simpa [Base64.bytes] using hnil
  exact h (String.toByteArray_inj.mp (ByteArray.ext hdata))

theorem segment_solid {text : String} {c : Char} (hc : c ∈ (segment text).toList) :
    isSpace c = false ∧ c ≠ '.' := by
  have hdigit : ∀ m : Fin 64, isSpace (Base64.digit m) = false ∧ Base64.digit m ≠ '.' := by
    decide
  obtain ⟨m, rfl⟩ := Base64.mem_encode (Base64.bytes_lt text) hc
  exact hdigit m

theorem segments_raw : segments t.raw = [segment t.header, segment t.payload, segment "sig"] := by
  have hdot : ∀ text, '.' ∉ (segment text).toList := fun text hc => (segment_solid hc).2 rfl
  have hraw : t.raw.toList = intercalate ['.']
      ([segment t.header, segment t.payload, segment "sig"].map String.toList) := by
    simp [raw, intercalate_cons_cons]
  rw [segments, hraw, Path.split_intercalate (by simp) (by simp [hdot])]
  simp

theorem raw_ne : t.raw.toList ≠ [] := by simp [raw]

theorem fields_raw : fields ("Bearer " ++ t.raw) = ["Bearer", t.raw] := by
  have hsolid : ∀ c ∈ t.raw.toList, isSpace c = false := by
    intro c hc
    simp only [raw, String.toList_append, mem_append] at hc
    rcases hc with (((hc | hc) | hc) | hc) | hc
    iterate 2
      · exact (segment_solid hc).1
      · exact (show ∀ c ∈ ".".toList, isSpace c = false by decide) c hc
    exact (segment_solid hc).1
  have hchars : ("Bearer " ++ t.raw).toList = "Bearer".toList ++ ' ' :: t.raw.toList := by simp
  unfold fields fieldsFunc
  rw [hchars, splitOnP_append_cons_of_forall_mem (by decide) _ (by decide),
    splitOnP_eq_singleton hsolid]
  simp [t.raw_ne]

theorem bearerToken_raw (hsize : t.raw.utf8ByteSize ≤ maxTokenBytes) :
    bearerToken ["Bearer " ++ t.raw] = .ok t.raw := by
  unfold bearerToken
  simp only [t.fields_raw]
  rw [if_neg (by rintro (h | h); exacts [h rfl, t.raw_ne (by simp [h])]),
    if_neg (Nat.not_lt.mpr hsize)]

theorem decodeHeader_segment :
    decodeHeader (t.library valid) (segment t.header) = some ⟨t.alg, t.kid, []⟩ := by
  rw [decodeHeader, segment, t.base64_encode valid (Base64.bytes_lt _)]
  exact if_pos rfl

theorem decodeClaims_segment :
    decodeClaims (t.library valid) (segment t.payload) = some t.entries := by
  rw [decodeClaims, segment, t.base64_encode valid (Base64.bytes_lt _)]
  exact if_pos rfl

end SampleToken

def sampleConfig (algorithms : List String) : OIDCConfig :=
  ⟨"https://idp", "api", "https://idp/keys", algorithms, "", "", "", "", "", "", 0, 0⟩

/-- The bytes of a modulus of 2048 bits. -/
def sampleModulus : Bytes := 128 :: replicate 254 0 ++ [1]

/-- One key, declared for an algorithm. -/
def sampleDocument (alg : String) : JwksDocument :=
  ⟨[⟨"RSA", "key-1", "sig", alg, Base64.encode sampleModulus, Base64.encode [1, 0, 1]⟩]⟩

def sampleKeys : List (String × PublicKey) :=
  [("key-1", ⟨ofBytes sampleModulus, ofBytes [1, 0, 1]⟩)]

def sampleSetup (lib : Library) (algorithms : List String) (alg : String) :
    Except SetupError OIDCVerifier :=
  newOIDCVerifier lib (fun _ => true) (sampleConfig algorithms) (.error "")
    (.ok (sampleDocument alg)) 0

def sampleVerifier (algorithms : List String) (alg : String) : OIDCVerifier where
  cfg := normalizeConfig (sampleConfig algorithms)
  keys := ⟨⟨defaultJWKSCache, normalizeStrings algorithms,
    sampleKeys, defaultJWKSCache⟩, 1, [(0, sampleDocument alg)]⟩

def sampleCall (t : SampleToken) : Call where
  out := ⟨1000, .ok (sampleDocument ""), 1000, 1000⟩
  authorization := ["Bearer " ++ t.raw]

variable {t : SampleToken}

section

variable {algorithms : List String} {alg : String}

theorem acceptableKey_of {lib : Library} {item : Jwk} {n e : Bytes}
    (hitem : item.kty = "RSA" ∧ item.kid ≠ "" ∧ item.use = "sig")
    (halg : item.alg = "" ∨ item.alg ∈ algorithms)
    (hn : lib.base64 item.n = some n) (he : lib.base64 item.e = some e) (hne : n ≠ [])
    (hlength : ¬(e = [] ∨ 4 < e.length)) (hodd : ¬(ofBytes e < 3 ∨ ofBytes e % 2 = 0))
    (hbits : 2048 ≤ (PublicKey.mk (ofBytes n) (ofBytes e)).bitLen) :
    acceptableKey lib algorithms item = some ⟨ofBytes n, ofBytes e⟩ := by
  have hkey : rsaPublicKey lib item.n item.e = some ⟨ofBytes n, ofBytes e⟩ := by
    simp only [rsaPublicKey, hn, he]
    rw [if_neg hne, if_neg hlength, if_neg hodd]
  simp only [acceptableKey, hkey]
  rw [if_neg (by simp [hitem]), if_neg (by tauto), if_neg (Nat.not_lt.mpr hbits)]

theorem refresh_sample (t : SampleToken) (valid : Bool) (now : Nanos) (s : State)
    (halg : alg = "" ∨ alg ∈ s.set.algorithms) :
    refresh (t.library valid) (.ok (sampleDocument alg)) now s = (.ok (),
      ⟨⟨s.set.cacheTTL, s.set.algorithms, sampleKeys, now + s.set.cacheTTL⟩, s.fetches + 1,
        s.stored ++ [(now, sampleDocument alg)]⟩) := by
  have hmodulus : ∀ b ∈ sampleModulus, b < 256 := by decide +kernel
  have hkey : acceptableKey (t.library valid) s.set.algorithms
      ⟨"RSA", "key-1", "sig", alg, Base64.encode sampleModulus, Base64.encode [1, 0, 1]⟩ =
        some ⟨ofBytes sampleModulus, ofBytes [1, 0, 1]⟩ :=
    acceptableKey_of (by simp) halg (t.base64_encode valid hmodulus)
      (t.base64_encode valid (by decide)) (cons_ne_nil _ _) (by simp) (by decide)
      (by decide +kernel)
  simp [refresh, sampleDocument, collect, hkey, sampleKeys]

theorem sampleSetup_ok (t : SampleToken) (valid : Bool) (hne : normalizeStrings algorithms ≠ [])
    (hsupported : ∀ a ∈ normalizeStrings algorithms, supportedAlgorithm a = true)
    (halg : alg = "" ∨ alg ∈ normalizeStrings algorithms) :
    sampleSetup (t.library valid) algorithms alg = .ok (sampleVerifier algorithms alg) := by
  have hrefresh := refresh_sample t valid 0
    (newRemoteKeySet defaultJWKSCache (normalizeStrings algorithms)) halg
  have hfind : (normalizeStrings algorithms).find? (fun a => !supportedAlgorithm a) = none :=
    find?_eq_none.mpr (fun a ha => by simp [hsupported a ha])
  have hurl : keysURL (normalizeConfig (sampleConfig algorithms)) (.error "") =
      .ok (trimSpace "https://idp/keys") :=
    if_pos (show trimSpace "https://idp/keys" ≠ "" by decide)
  have halgorithms : (normalizeConfig (sampleConfig algorithms)).allowedAlgorithms =
    normalizeStrings algorithms := rfl
  have haudience : (normalizeConfig (sampleConfig algorithms)).audience ≠ "" :=
    show trimSpace "api" ≠ "" by decide
  have httl : (normalizeConfig (sampleConfig algorithms)).jwksCacheTTL = defaultJWKSCache := rfl
  unfold sampleSetup newOIDCVerifier
  simp only [halgorithms, if_neg hne, hfind, hurl, httl, hrefresh, Bool.true_eq_false, if_false,
    haudience]
  rfl

theorem normalizeStrings_rs256 : normalizeStrings ["RS256"] = ["RS256"] := by decide

theorem sampleSetup_rs256 (t : SampleToken) (valid : Bool) :
    sampleSetup (t.library valid) ["RS256"] "" = .ok (sampleVerifier ["RS256"] "") := by
  apply sampleSetup_ok t valid _ _ (.inl rfl) <;> rw [normalizeStrings_rs256] <;> decide

theorem evidence_header {valid : Bool} {cfg : OIDCConfig}
    {stored : List (Nanos × JwksDocument)} {p : Principal} {token : Token}
    (h : Evidence (t.library valid) cfg stored (sampleCall t) p token) :
    token.header = ⟨t.alg, t.kid, []⟩ := by
  obtain ⟨value, hvalue, hfields⟩ := h.single
  cases hvalue
  have hparts := h.parts
  have hheader := h.header
  simp only [t.fields_raw, cons.injEq] at hfields
  rw [← hfields.2.1, t.segments_raw] at hparts
  simp only [cons.injEq] at hparts
  rw [← hparts.1, t.decodeHeader_segment] at hheader
  exact (Option.some.inj hheader).symm

/-- The token is read as it is written, and then the key set and its claims decide. -/
theorem verifyRequest_sample (valid : Bool) {cfg : OIDCConfig} (s : State)
    (hkid : t.kid ≠ "") (hpayload : t.payload ≠ "") (halg : t.alg ∈ cfg.allowedAlgorithms)
    (hsize : t.raw.utf8ByteSize ≤ maxTokenBytes) :
    verifyRequest (t.library valid) cfg (sampleCall t).out (sampleCall t).authorization s =
      match verify (t.library valid) (sampleCall t).out t.alg t.kid
        (SampleToken.segment t.header ++ "." ++ SampleToken.segment t.payload)
        (SampleToken.segment "sig") s with
      | (.error _, s) => (invalidToken, s)
      | (.ok _, s) =>
        match validateClaims (t.library valid) cfg 1000 t.entries with
        | .error e => (.error e, s)
        | .ok _ => (principalFromClaims cfg t.entries, s) := by
  have hheader : t.header ≠ "" := by simp [SampleToken.header]
  have hbearer : bearerToken (sampleCall t).authorization = .ok t.raw := t.bearerToken_raw hsize
  simp only [verifyRequest, hbearer, verifyToken, t.segments_raw, t.decodeHeader_segment,
    t.decodeClaims_segment]
  rw [if_neg (by simp [SampleToken.segment_ne, hheader, hpayload, SampleToken.segment_ne
    (show "sig" ≠ "" by decide)]), if_neg (by simp [hkid, halg])]
  rfl

/-- A token that names the key and an allowed algorithm, by the clock within its dates. -/
theorem sample_accepted {p : Principal} (hkid : t.kid = "key-1")
    (hpayload : t.payload ≠ "") (hsize : t.raw.utf8ByteSize ≤ maxTokenBytes)
    (halgorithm : t.alg ∈ normalizeStrings algorithms)
    (hsupported : supportedAlgorithm t.alg = true)
    (hvalid : validateClaims (t.library true) (normalizeConfig (sampleConfig [])) 1000 t.entries =
      .ok ())
    (hp : principalFromClaims (normalizeConfig (sampleConfig [])) t.entries = .ok p) :
    (sampleVerifier algorithms alg).verify (t.library true) (sampleCall t) =
      (.ok p, sampleVerifier algorithms alg) := by
  obtain ⟨hash, hhash⟩ : ∃ hash, digestForAlgorithm t.alg = some hash := by
    rcases of_decide_eq_true hsupported with h | h | h <;> rw [h] <;> exact ⟨_, rfl⟩
  have hkey : keyFor (t.library true) (sampleCall t).out t.kid false
      (sampleVerifier algorithms alg).keys =
        (.ok ⟨ofBytes sampleModulus, ofBytes [1, 0, 1]⟩, (sampleVerifier algorithms alg).keys) := by
    rw [hkid]
    rfl
  have hchecked : ∀ input, verify (t.library true) (sampleCall t).out t.alg t.kid input
      (SampleToken.segment "sig") (sampleVerifier algorithms alg).keys =
        (.ok (), (sampleVerifier algorithms alg).keys) := by
    intro input
    simp only [verify, SampleToken.segment, t.base64_encode true (Base64.bytes_lt _), hkey, hhash]
    rfl
  -- the checks of the claims do not read the algorithms
  have hvalidate : validateClaims (t.library true) (sampleVerifier algorithms alg).cfg =
      validateClaims (t.library true) (normalizeConfig (sampleConfig [])) := by
    funext now claims
    unfold validateClaims validateDates sampleVerifier normalizeConfig sampleConfig
    rfl
  have hprincipal : principalFromClaims (sampleVerifier algorithms alg).cfg =
      principalFromClaims (normalizeConfig (sampleConfig [])) := by
    funext claims
    unfold principalFromClaims claimedType sampleVerifier normalizeConfig sampleConfig
    rfl
  unfold OIDCVerifier.verify
  rw [verifyRequest_sample true _ (by simp [hkid]) hpayload halgorithm hsize, hchecked, hvalidate,
    hprincipal]
  simp only [hvalid, hp]

end

def idpToken (alg issuer : String) (nbf : Nat) : SampleToken where
  alg := alg
  kid := "key-1"
  payload := "\x7b\"iss\":\"" ++ issuer ++ "\",\"aud\":[\"api\"],\"sub\":\"user-1\"," ++
    "\"tenant_id\":\"t-1\",\"exp\":100,\"nbf\":" ++ toString nbf ++ "\x7d"
  entries := [("iss", .text issuer), ("aud", .list [.text "api"]), ("sub", .text "user-1"),
    ("tenant_id", .text "t-1"), ("exp", .number (some 100)), ("nbf", .number (some nbf))]

def samplePrincipal : Principal :=
  ⟨.user, "user-1", "t-1", "", [], [], "oidc_jwt", "https://idp", "", ""⟩

theorem idpToken_accepted {algorithms : List String} {a : String} (alg : String)
    (ha : a ∈ normalizeStrings algorithms) (hsupported : supportedAlgorithm a = true) :
    (sampleVerifier algorithms alg).verify ((idpToken a "https://idp" 0).library true)
      (sampleCall (idpToken a "https://idp" 0)) =
        (.ok samplePrincipal, sampleVerifier algorithms alg) := by
  rcases of_decide_eq_true hsupported with rfl | rfl | rfl <;>
  exact sample_accepted rfl (by simp [idpToken]) (by decide +kernel) ha hsupported
    (by decide +kernel) (by decide +kernel)

/-- The key is declared for one algorithm and the token names another. -/
theorem idpToken_unlike {algorithms : List String} {a b : String} (hb : b ≠ "")
    (hused : UsedAsDeclared ((idpToken a "https://idp" 0).library true)
      (sampleVerifier algorithms b).cfg (sampleVerifier algorithms b).keys.stored
      (sampleCall (idpToken a "https://idp" 0)) samplePrincipal) : b = a := by
  obtain ⟨token, key, htoken, -, ⟨x, hx, item, hitem, hkid, hkey⟩, hdeclared⟩ := hused
  have halg := hdeclared x hx item hitem hkid hkey
  cases mem_singleton.mp hx
  cases mem_singleton.mp hitem
  rw [evidence_header htoken] at halg
  exact halg hb

/-- A key of the key server is used for the algorithm it is declared for, whatever the rest of
the configuration, the documents and the requests, exactly when the allowed algorithms are one. -/
theorem declared_algorithm_used (algorithms : List String) :
    (∀ lib httpsURL cfg discovery fetched now v calls call p v',
      cfg.allowedAlgorithms = algorithms →
      newOIDCVerifier lib httpsURL cfg discovery fetched now = .ok v →
      (v.after lib calls).verify lib call = (.ok p, v') →
        UsedAsDeclared lib v.cfg v'.keys.stored call p) ↔
    ((∀ a ∈ normalizeStrings algorithms, supportedAlgorithm a = true) →
      ∀ a ∈ normalizeStrings algorithms, ∀ b ∈ normalizeStrings algorithms, a = b) := by
  constructor
  · intro h hsupported a ha b hb
    have hne : normalizeStrings algorithms ≠ [] := ne_nil_of_mem ha
    have hused := h _ _ _ _ _ _ _ [] _ _ _ rfl
      (sampleSetup_ok (idpToken a "https://idp" 0) true hne hsupported (.inr hb))
      (idpToken_accepted b ha (hsupported a ha))
    refine (idpToken_unlike ?_ hused).symm
    rintro rfl
    exact absurd (hsupported "" hb) (by decide)
  · rintro hone lib httpsURL cfg discovery fetched now v calls call p v' rfl hnew hverify
    obtain ⟨-, hallowed, hsupported⟩ := newOIDCVerifier_ok hnew
    refine usedAsDeclared_of_one hnew calls call hverify ?_
    rcases hallowed with hallowed | hallowed <;> rw [hallowed] at hsupported ⊢
    · simp
    · exact hone hsupported

/-- A key declared for RS512 verifies a token that names RS256. -/
theorem undeclared_algorithm_accepted :
    let t := idpToken "RS256" "https://idp" 0
    ∃ v, sampleSetup (t.library true) ["RS256", "RS512"] "RS512" = .ok v ∧
      v.verify (t.library true) (sampleCall t) = (.ok samplePrincipal, v) ∧
      ¬UsedAsDeclared (t.library true) v.cfg v.keys.stored (sampleCall t) samplePrincipal := by
  intro t
  refine ⟨_, sampleSetup_ok t true (by decide) (by decide)
    (.inr (by decide)),
    idpToken_accepted _ (by decide) (by decide), fun hused => ?_⟩
  exact absurd (idpToken_unlike (by decide) hused) (by decide)

/-- A token of the padded issuer that is valid only in three hundred thousand million years. -/
theorem padded_distant_token_accepted :
    let t := idpToken "RS256" " https://idp " 10000000000000000000
    ∃ v, sampleSetup (t.library true) ["RS256"] "" = .ok v ∧
      v.verify (t.library true) (sampleCall t) = (.ok samplePrincipal, v) ∧
      claim t.entries "iss" ≠ some (.text v.cfg.issuer) ∧
      ∃ seconds, dateSeconds t.entries "nbf" = some seconds ∧
        (sampleCall t).out.claimsAt + v.cfg.clockSkew < seconds * 1000000000 := by
  intro t
  refine ⟨_, sampleSetup_rs256 t true, sample_accepted rfl (by simp [t, idpToken])
      (by decide +kernel) (by decide +kernel) (by decide) (by decide +kernel) (by decide +kernel),
    ?_, 10000000000000000000, rfl, by decide +kernel⟩
  intro h
  injection h with h
  injection h with h
  exact absurd h (by decide)

theorem sample_token_evidence :
    let t := idpToken "RS256" "https://idp" 0
    ∃ (v v' : OIDCVerifier) (token : Token), sampleSetup (t.library true) ["RS256"] "" = .ok v ∧
      Evidence (t.library true) v.cfg v'.keys.stored (sampleCall t) samplePrincipal token := by
  intro t
  have hallowed : "RS256" ∈ normalizeStrings ["RS256"] := by simp [normalizeStrings_rs256]
  obtain ⟨token, htoken⟩ := verified_principal_evidence (sampleSetup_rs256 t true) [] (sampleCall t)
    (idpToken_accepted "" hallowed (by decide))
  exact ⟨_, _, token, sampleSetup_rs256 t true, htoken⟩

/-- The token names a key that is not cached. -/
def OIDCVerifier.Misses (lib : Library) (v : OIDCVerifier) (call : Call) : Prop :=
  ∃ kid, tokenKid lib call.authorization = some kid ∧ v.keys.set.key kid = none

instance (v : OIDCVerifier) (call : Call) : Decidable (v.Misses lib call) :=
  match hkid : tokenKid lib call.authorization with
  | none => isFalse (fun ⟨kid, h, _⟩ => by rw [hkid] at h; cases h)
  | some kid =>
    if hkey : v.keys.set.key kid = none then isTrue ⟨kid, hkid, hkey⟩
    else isFalse (fun ⟨kid', h, hkey'⟩ => by
      rw [hkid] at h
      cases h
      exact hkey hkey')

/-- How many tokens of a sequence name a key that is not cached when they are presented. -/
def OIDCVerifier.misses (lib : Library) : OIDCVerifier → List Call → Nat
  | _, [] => 0
  | v, call :: rest => (if v.Misses lib call then 1 else 0) + misses lib (v.verify lib call).2 rest

theorem verify_fetches (lib : Library) (v : OIDCVerifier) {call : Call}
    (hfresh : call.out.lookupAt < v.keys.set.keysUntil) : (v.verify lib call).2.keys.fetches ≤
      v.keys.fetches + (if v.Misses lib call then 1 else 0) ∧
    (v.verify lib call).2.keys.set.cacheTTL = v.keys.set.cacheTTL ∧
    ((v.verify lib call).2.keys.set.keysUntil = v.keys.set.keysUntil ∨
      (v.verify lib call).2.keys.set.keysUntil = call.out.storedAt + v.keys.set.cacheTTL) := by
  have hstate : (v.verify lib call).2.keys =
      (verifyRequest lib v.cfg call.out call.authorization v.keys).2 := rfl
  rw [hstate]
  rcases verifyRequest_state lib v.cfg call.out call.authorization v.keys with
    hsame | ⟨kid, hkid, hkey⟩
  · rw [hsame]
    exact ⟨Nat.le_add_right _ _, rfl, .inl rfl⟩
  rw [hkey]
  rcases keyFor_cases lib call.out kid v.keys with ⟨key, -, -, heq⟩ | ⟨hmiss, heq, -⟩
  · rw [heq]
    exact ⟨Nat.le_add_right _ _, rfl, .inl rfl⟩
  · have hmisses : v.Misses lib call := by
      refine ⟨kid, hkid, ?_⟩
      by_contra hcached
      exact hmiss ⟨hfresh, Option.isSome_iff_ne_none.mpr hcached⟩
    have hr := refresh_refreshed lib call.out.fetched call.out.storedAt v.keys
    rw [heq, if_pos hmisses]
    generalize refresh lib call.out.fetched call.out.storedAt v.keys = r at hr
    cases hr with
    | failed e => exact ⟨Nat.le_refl _, rfl, .inl rfl⟩
    | stored document keys hlists => exact ⟨Nat.le_refl _, rfl, .inr rfl⟩

/-- Requests within the lifetime of a fresh cache, by a clock that does not fall behind the
time the cache was filled, cost at most one fetch for each token that names an uncached key. -/
theorem fetches_le_misses (v : OIDCVerifier) (calls : List Call)
    (hfresh : ∀ call ∈ calls, call.out.lookupAt < v.keys.set.keysUntil)
    (hclock : ∀ call ∈ calls, v.keys.set.keysUntil ≤ call.out.storedAt + v.keys.set.cacheTTL) :
    (v.after lib calls).keys.fetches ≤ v.keys.fetches + v.misses lib calls := by
  have hrun : ∀ (u : OIDCVerifier), u.keys.set.cacheTTL = v.keys.set.cacheTTL →
      v.keys.set.keysUntil ≤ u.keys.set.keysUntil →
      (u.after lib calls).keys.fetches ≤ u.keys.fetches + u.misses lib calls := by
    induction calls with
    | nil => exact fun u _ _ => Nat.le_refl _
    | cons call rest ih =>
      intro u httl huntil
      obtain ⟨hstep, httl', huntil'⟩ := verify_fetches lib u
        (Int.lt_of_lt_of_le (hfresh call mem_cons_self) huntil)
      have hlater : v.keys.set.keysUntil ≤ (u.verify lib call).2.keys.set.keysUntil := by
        rcases huntil' with hsame | hnew
        · rw [hsame]
          exact huntil
        · rw [hnew, httl]
          exact hclock call mem_cons_self
      have hrest := ih (fun c hc => hfresh c (mem_cons_of_mem _ hc))
        (fun c hc => hclock c (mem_cons_of_mem _ hc)) _ (httl'.trans httl) hlater
      have hafter : u.after lib (call :: rest) = (u.verify lib call).2.after lib rest := rfl
      have hmisses : u.misses lib (call :: rest) =
        (if u.Misses lib call then 1 else 0) + (u.verify lib call).2.misses lib rest := rfl
      rw [hafter, hmisses]
      omega
  exact hrun v rfl (Int.le_refl _)

theorem unknown_key_fetches (valid : Bool) (hkid : t.kid ≠ "" ∧ t.kid ≠ "key-1")
    (hpayload : t.payload ≠ "") (hsize : t.raw.utf8ByteSize ≤ maxTokenBytes) (n : Nat) :
    ∀ v : OIDCVerifier, t.alg ∈ v.cfg.allowedAlgorithms → v.keys.set.key t.kid = none →
      (v.after (t.library valid) (replicate n (sampleCall t))).keys.fetches =
        v.keys.fetches + n := by
  induction n with
  | zero => exact fun v _ _ => rfl
  | succ n ih =>
    intro v halg hkey
    have hrefresh : refresh (t.library valid) (sampleCall t).out.fetched (sampleCall t).out.storedAt
      v.keys = _ := refresh_sample t valid 1000 v.keys (.inl rfl)
    generalize hs : State.mk _ _ _ = s at hrefresh
    have hnone : s.set.key t.kid = none := by
      simp [← hs, RemoteKeySet.key, sampleKeys, hkid.2.symm]
    have hstep : (v.verify (t.library valid) (sampleCall t)).2 = ⟨v.cfg, s⟩ := by
      unfold OIDCVerifier.verify
      rw [verifyRequest_sample valid _ hkid.1 hpayload halg hsize]
      simp only [verify, SampleToken.segment, t.base64_encode valid (Base64.bytes_lt _)]
      rcases keyFor_cases (t.library valid) (sampleCall t).out t.kid v.keys with
        ⟨key, hcached, -⟩ | ⟨-, hstate, hfound⟩
      · rw [hkey] at hcached
        cases hcached
      rw [hrefresh] at hstate hfound
      rcases hk : keyFor (t.library valid) (sampleCall t).out t.kid false v.keys with ⟨result, s'⟩
      rw [hk] at hstate hfound
      cases hstate
      cases result with
      | error e => rfl
      | ok key =>
        have hsome := (hfound key rfl).2
        rw [hnone] at hsome
        cases hsome
    have hrest := ih ⟨v.cfg, s⟩ halg hnone
    rw [← hstep] at hrest
    rw [replicate_succ, OIDCVerifier.after, foldl_cons]
    refine hrest.trans ?_
    rw [hstep, ← hs]
    exact Nat.add_right_comm _ 1 n

def floodToken : SampleToken := ⟨"RS256", "unknown", "\x7b\x7d", []⟩

theorem flood_fresh : ∀ call ∈ replicate 2 (sampleCall floodToken),
    call.out.lookupAt < (sampleVerifier ["RS256"] "").keys.set.keysUntil ∧
      (sampleVerifier ["RS256"] "").keys.set.keysUntil ≤
        call.out.storedAt + (sampleVerifier ["RS256"] "").keys.set.cacheTTL := by
  intro call hcall
  rw [eq_of_mem_replicate hcall]
  decide

theorem unknown_key_fetches_again :
    let calls := replicate 2 (sampleCall floodToken)
    ∃ v, sampleSetup (floodToken.library false) ["RS256"] "" = .ok v ∧
      (∀ call ∈ calls, call.out.lookupAt < v.keys.set.keysUntil) ∧
      (v.after (floodToken.library false) calls).keys.fetches = v.keys.fetches + 2 ∧
      ∀ key hash input signature,
        (floodToken.library false).verifyPKCS1v15 key hash input signature = false :=
  ⟨_, sampleSetup_rs256 floodToken false,
    fun call hcall => (flood_fresh call hcall).1,
    unknown_key_fetches false (by decide) (by decide) (by decide) 2 _
      (by decide) rfl,
    fun _ _ _ _ => rfl⟩

theorem flood_fetches_bounded :
    let calls := replicate 2 (sampleCall floodToken)
    ∃ v, sampleSetup (floodToken.library false) ["RS256"] "" = .ok v ∧
      (v.after (floodToken.library false) calls).keys.fetches ≤
        v.keys.fetches + v.misses (floodToken.library false) calls :=
  ⟨_, sampleSetup_rs256 floodToken false,
    fetches_le_misses _ _ (fun call hcall => (flood_fresh call hcall).1)
      (fun call hcall => (flood_fresh call hcall).2)⟩

end AiCloud.Authn
