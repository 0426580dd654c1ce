import AiCloud.Authn.Oidc

/-!
# Where cached keys come from

Every key in the cache is listed by the document stored last, and the cache ends one
lifetime after that document was stored. No call but a successful refresh changes this.
-/
namespace AiCloud.Authn

open Lib Text Identity List

variable {lib : Library}

/-- An RSA key of at least 2048 bits that a document lists under an id. -/
def JwksDocument.Lists (lib : Library) (document : JwksDocument) (kid : String) (key : PublicKey) :
    Prop :=
  ∃ item ∈ document.keys, item.kty = "RSA" ∧ item.kid = kid ∧
    rsaPublicKey lib item.n item.e = some key ∧ 2048 ≤ key.bitLen

variable {key : PublicKey} {algorithms : List String}

theorem acceptableKey_some {item : Jwk} (h : acceptableKey lib algorithms item = some key) :
    (item.alg ≠ "" → item.alg ∈ algorithms) ∧ item.kty = "RSA" ∧
      rsaPublicKey lib item.n item.e = some key ∧ 2048 ≤ key.bitLen := by
  unfold acceptableKey at h
  split at h
  · cases h
  rename_i hkty
  split at h
  · cases h
  rename_i halg
  split at h
  · cases h
  rename_i key' hkey
  split at h
  · cases h
  rename_i hbits
  cases h
  exact ⟨fun hne => not_not.mp (fun hout => halg ⟨hne, hout⟩),
    not_not.mp (fun hne => hkty (.inl hne)), hkey, Nat.le_of_not_lt hbits⟩

/-- The key set takes the key from an entry under the id. -/
def JwksDocument.Offers (lib : Library) (algorithms : List String) (document : JwksDocument)
    (kid : String) (key : PublicKey) : Prop :=
  ∃ item ∈ document.keys, item.kid = kid ∧ acceptableKey lib algorithms item = some key

theorem JwksDocument.Offers.lists {document : JwksDocument} {kid : String}
    (h : document.Offers lib algorithms kid key) : document.Lists lib kid key := by
  obtain ⟨item, hmem, hkid, hkey⟩ := h
  obtain ⟨-, hkty, hrsa⟩ := acceptableKey_some hkey
  exact ⟨item, hmem, hkty, hkid, hrsa⟩

theorem collect_mem {items : List Jwk} {keys collected : List (String × PublicKey)}
    (h : collect lib algorithms items keys = .ok collected) {kid : String}
    (hmem : (kid, key) ∈ collected) :
    (kid, key) ∈ keys ∨ JwksDocument.Offers lib algorithms ⟨items⟩ kid key := by
  have hmore : ∀ {item : Jwk} {rest : List Jwk}, JwksDocument.Offers lib algorithms ⟨rest⟩ kid key →
      JwksDocument.Offers lib algorithms ⟨item :: rest⟩ kid key :=
    fun ⟨found, hin, hfound⟩ => ⟨found, mem_cons_of_mem _ hin, hfound⟩
  induction items generalizing keys with
  | nil =>
    cases h
    exact .inl hmem
  | cons item rest ih =>
    unfold collect at h
    cases hkey : acceptableKey lib algorithms item with
    | none =>
      simp only [hkey] at h
      exact (ih h).imp_right hmore
    | some found =>
      simp only [hkey] at h
      split at h
      · cases h
      rcases ih h with hin | hoffers
      · rcases mem_append.mp hin with hold | hnew
        · exact .inl hold
        · cases mem_singleton.mp hnew
          exact .inr ⟨item, mem_cons_self, rfl, hkey⟩
      · exact .inr (hmore hoffers)

theorem key_mem {s : RemoteKeySet} {kid : String} (h : s.key kid = some key) :
    (kid, key) ∈ s.keys := by
  unfold RemoteKeySet.key at h
  obtain ⟨entry, hfind, rfl⟩ := Option.map_eq_some_iff.mp h
  have hid : entry.1 = kid := by simpa using find?_some hfind
  exact hid ▸ mem_of_find?_eq_some hfind

/-- The cache holds what the last stored document lists, for one lifetime. -/
structure Cached (lib : Library) (s : State) : Prop where
  last : ∃ storedAt document, (storedAt, document) ∈ s.stored ∧
    s.set.keysUntil = storedAt + s.set.cacheTTL ∧
      ∀ kid key, s.set.key kid = some key → document.Lists lib kid key

/-- What a refresh does to the key set. -/
inductive Refreshed (lib : Library) (now : Nanos) (s : State) : Except KeyError Unit × State → Prop
  | failed (e : KeyError) : Refreshed lib now s (.error e, { s with fetches := s.fetches + 1 })
  | stored (document : JwksDocument) (keys : List (String × PublicKey))
      (h : ∀ kid key, (kid, key) ∈ keys → document.Lists lib kid key) :
      Refreshed lib now s (.ok (), ⟨{ s.set with keys := keys, keysUntil := now + s.set.cacheTTL },
        s.fetches + 1, s.stored ++ [(now, document)]⟩)

theorem refresh_refreshed (lib : Library) (fetched : Except String JwksDocument) (now : Nanos)
    (s : State) : Refreshed lib now s (refresh lib fetched now s) := by
  unfold refresh
  dsimp only
  cases fetched with
  | error cause => exact .failed _
  | ok document =>
    dsimp only
    cases hkeys : collect lib s.set.algorithms document.keys [] with
    | error e => exact .failed e
    | ok keys =>
      dsimp only
      split
      · exact .failed _
      · exact .stored document keys
          (fun kid key hmem => ((collect_mem hkeys hmem).resolve_left not_mem_nil).lists)

/-- Every cached key was taken from an entry of a stored document. -/
def Traced (lib : Library) (algorithms : List String) (s : State) : Prop :=
  s.set.algorithms = algorithms ∧ ∀ kid key, s.set.key kid = some key →
    ∃ x ∈ s.stored, x.2.Offers lib algorithms kid key

variable {s : State}

theorem Traced.refresh (hs : Traced lib algorithms s)
    (fetched : Except String JwksDocument) (now : Nanos) :
    Traced lib algorithms (refresh lib fetched now s).2 := by
  obtain ⟨rfl, hs⟩ := hs
  unfold Authn.refresh
  dsimp only
  cases fetched with
  | error cause => exact ⟨rfl, hs⟩
  | ok document =>
    dsimp only
    split
    · exact ⟨rfl, hs⟩
    rename_i keys hkeys
    split
    · exact ⟨rfl, hs⟩
    · refine ⟨rfl, fun kid key hkey => ⟨(now, document), by simp, ?_⟩⟩
      exact (collect_mem hkeys (key_mem hkey)).resolve_left not_mem_nil

theorem Refreshed.cached {now : Nanos} {r : Except KeyError Unit × State}
    (h : Refreshed lib now s r) (hs : Cached lib s ∨ r.1 = .ok ()) : Cached lib r.2 := by
  cases h with
  | failed e =>
    rcases hs with hs | hok
    · exact ⟨hs.last⟩
    · cases hok
  | stored document keys hlists =>
    exact ⟨now, document, by simp, rfl, fun kid key hkey => hlists kid key (key_mem hkey)⟩

theorem Refreshed.cacheTTL {now : Nanos} {r : Except KeyError Unit × State}
    (h : Refreshed lib now s r) : r.2.set.cacheTTL = s.set.cacheTTL := by
  cases h <;> rfl

/-- A key that was looked up comes from a document stored at most one lifetime before: the
cache is asked by the clock at the lookup, and otherwise the keys were stored just now. -/
def FreshKey (lib : Library) (out : Outside) (ttl : Nanos) (stored : List (Nanos × JwksDocument))
    (kid : String) (key : PublicKey) : Prop :=
  ∃ storedAt document, (storedAt, document) ∈ stored ∧ document.Lists lib kid key ∧
    (out.lookupAt - storedAt ≤ ttl ∨ storedAt = out.storedAt)

/-- A lookup finds the key in a fresh cache, or it refreshes the cache first. -/
theorem keyFor_cases (lib : Library) (out : Outside) (kid : String) (s : State) :
    (∃ key, s.set.key kid = some key ∧ out.lookupAt < s.set.keysUntil ∧
        keyFor lib out kid false s = (.ok key, s)) ∨
      (¬ (out.lookupAt < s.set.keysUntil ∧ (s.set.key kid).isSome) ∧
        let r := refresh lib out.fetched out.storedAt s
        (keyFor lib out kid false s).2 = r.2 ∧ ∀ key, (keyFor lib out kid false s).1 = .ok key →
          r.1 = .ok () ∧ r.2.set.key kid = some key) := by
  cases hcached : (if out.lookupAt < s.set.keysUntil then s.set.key kid else none) with
  | some key =>
    split at hcached
    · rename_i hfresh
      refine .inl ⟨key, hcached, hfresh, ?_⟩
      simp only [keyFor, true_and, if_pos hfresh, hcached]
    · cases hcached
  | none =>
    refine .inr ⟨?_, ?_⟩
    · rintro ⟨hfresh, hsome⟩
      rw [if_pos hfresh] at hcached
      rw [hcached] at hsome
      cases hsome
    · simp only [keyFor, true_and, hcached]
      rcases hr : refresh lib out.fetched out.storedAt s with ⟨result, t⟩
      cases result with
      | error e => exact ⟨rfl, fun key hkey => by cases hkey⟩
      | ok u =>
        dsimp only
        cases hkey : t.set.key kid with
        | none => exact ⟨rfl, fun key h => by cases h⟩
        | some found =>
          refine ⟨rfl, fun key h => ?_⟩
          cases h
          exact ⟨rfl, rfl⟩

theorem keyFor_spec (hs : Cached lib s) (out : Outside) (kid : String) :
    Cached lib (keyFor lib out kid false s).2 ∧
      (keyFor lib out kid false s).2.set.cacheTTL = s.set.cacheTTL ∧
      ∀ key, (keyFor lib out kid false s).1 = .ok key →
        FreshKey lib out s.set.cacheTTL (keyFor lib out kid false s).2.stored kid key := by
  rcases keyFor_cases lib out kid s with ⟨key, hkey, hfresh, heq⟩ | ⟨-, hstate, hresult⟩
  · rw [heq]
    refine ⟨hs, rfl, fun key' hkey' => ?_⟩
    cases hkey'
    obtain ⟨storedAt, document, hmem, huntil, hlists⟩ := hs.last
    refine ⟨storedAt, document, hmem, hlists kid key hkey, .inl ?_⟩
    rw [huntil] at hfresh
    exact Int.sub_left_le_of_le_add (Int.le_of_lt hfresh)
  · have hr := refresh_refreshed lib out.fetched out.storedAt s
    rw [hstate]
    refine ⟨hr.cached (.inl hs), hr.cacheTTL, fun key hkey => ?_⟩
    obtain ⟨hok, hfound⟩ := hresult key hkey
    generalize refresh lib out.fetched out.storedAt s = r at hr hok hfound
    cases hr with
    | failed e => cases hok
    | stored document keys hlists =>
      exact ⟨out.storedAt, document, by simp, hlists kid key (key_mem hfound), .inr rfl⟩

theorem Traced.keyFor (hs : Traced lib algorithms s)
    (out : Outside) (kid : String) : Traced lib algorithms (keyFor lib out kid false s).2 ∧
    ∀ key, (keyFor lib out kid false s).1 = .ok key →
      (keyFor lib out kid false s).2.set.key kid = some key := by
  rcases keyFor_cases lib out kid s with ⟨key, hkey, -, heq⟩ | ⟨-, hstate, hresult⟩
  · rw [heq]
    refine ⟨hs, fun key' hkey' => ?_⟩
    cases hkey'
    exact hkey
  · rw [hstate]
    exact ⟨hs.refresh _ _, fun key hkey => (hresult key hkey).2⟩

end AiCloud.Authn
