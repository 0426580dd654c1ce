import Mathlib.Algebra.Ring.Int.Parity
import AiCloud.Lib.Base64
import AiCloud.Lib.Numbers

/-!
# Pages of a list response

A list response is cut into pages. The token of the next page is the offset where this page
ends, so a client that follows the tokens gets every item once, also while items are added
at the end.
-/
namespace AiCloud.HttpApi

open Lib Text List

def defaultPageSize : Nat := 50
def maxPageSize : Nat := 200

/-- What a handler lists: a slice in memory, where an item takes 24 bytes. So an offset
inside it plus a page does not overflow an `int`. -/
structure Collection (α : Type) where
  items : List α
  fits : 24 * items.length < 2 ^ 63

/-- `base64.RawURLEncoding`. -/
structure Base64 where
  encode : String → String
  decode : String → Option String
  decode_encode : ∀ s, decode (encode s) = some s
  encode_empty : encode "" = ""
  trimmed : ∀ s, trimSpace (encode s) = encode s

def checkedInt (n : Int) : Option Int := if -2 ^ 63 ≤ n ∧ n < 2 ^ 63 then some n else none

/-- `strconv.Atoi`. -/
def atoi : List Char → Option Int
  | '-' :: digits => (parseDigits digits).bind (fun n => checkedInt (-n))
  | '+' :: digits => (parseDigits digits).bind (fun n => checkedInt n)
  | digits => (parseDigits digits).bind (fun n => checkedInt n)

abbrev PageSize := { n : Nat // 1 ≤ n ∧ n ≤ maxPageSize }

structure PaginationSpec where
  (pageSize offset : Nat)

structure Page (α : Type) where
  items : List α
  nextPageToken : String

def requestedSize (pageSize : String) : Except String Nat :=
  if trimSpace pageSize = "" then .ok defaultPageSize
  else match atoi (trimSpace pageSize).toList with
    | none => .error "pageSize must be between 1 and 200"
    | some parsed =>
      if parsed < 1 ∨ maxPageSize < parsed then .error "pageSize must be between 1 and 200"
      else .ok parsed.toNat

section

variable (base64 : Base64)

def encodePageToken (offset : Nat) : String := base64.encode ("v1:" ++ offset.repr)

def decodePageToken (token : String) : Option Nat :=
  match base64.decode token with
  | none => none
  | some value =>
    if "v1:".toList.isPrefixOf value.toList then
      match atoi (value.toList.drop 3) with
      | none => none
      | some offset => if offset < 0 then none else some offset.toNat
    else none

/-- The query of a GET for a list. -/
def paginationRequest (pageSize pageToken : String) : Except String PaginationSpec :=
  match requestedSize pageSize with
  | .error e => .error e
  | .ok size =>
    if trimSpace pageToken = "" then .ok ⟨size, 0⟩
    else match decodePageToken base64 (trimSpace pageToken) with
      | none => .error "pageToken is invalid"
      | some offset => .ok ⟨size, offset⟩

variable {α : Type}

def paginateJSON (items : List α) (spec : PaginationSpec) : Except String (Page α) :=
  if items.length < spec.offset then .error "page offset exceeds collection size"
  else
    let stop := min (spec.offset + spec.pageSize) items.length
    .ok ⟨(items.take stop).drop spec.offset,
      if stop < items.length then encodePageToken base64 stop else ""⟩

/-- `WithAPIResponseContract` around a handler that lists the items. -/
def listPage (items : List α) (pageSize pageToken : String) : Except String (Page α) :=
  match paginationRequest base64 pageSize pageToken with
  | .error e => .error e
  | .ok spec =>
    match paginateJSON base64 items spec with
    | .error _ => .error "pageToken does not identify a valid page"
    | .ok page => .ok page

/-- The client's traversal up to request `n`, which found the list `lists n`: the items it
got and the token for the next page. It goes on as long as there is a token. -/
inductive Traversed (lists : Nat → Collection α) (sizes : Nat → PageSize) :
    Nat → List α → String → Prop
  | first {page : Page α} : listPage base64 (lists 0).items (sizes 0).val.repr "" = .ok page →
      Traversed lists sizes 0 page.items page.nextPageToken
  | next {n : Nat} {got : List α} {token : String} {page : Page α} :
      Traversed lists sizes n got token → token ≠ "" →
      listPage base64 (lists (n + 1)).items (sizes (n + 1)).val.repr token = .ok page →
      Traversed lists sizes (n + 1) (got ++ page.items) page.nextPageToken

end

theorem requestedSize_repr (n : PageSize) : requestedSize n.val.repr = .ok n.val := by
  have hall : ∀ n : Fin 201, 1 ≤ n.val → requestedSize n.val.repr = .ok n.val := by decide +kernel
  exact hall ⟨n.val, Nat.lt_succ_of_le n.property.2⟩ n.property.1

variable {base64 : Base64}

theorem atoi_repr {n : Nat} (hn : n < 2 ^ 63) : atoi n.repr.toList = some (n : Int) := by
  have hint : checkedInt n = some (n : Int) := if_pos (by omega)
  unfold atoi
  split
  · rename_i digits heq
    exact absurd (isDigit_of_mem_repr (heq ▸ mem_cons_self)) (by decide)
  · rename_i digits heq
    exact absurd (isDigit_of_mem_repr (heq ▸ mem_cons_self)) (by decide)
  · rw [parseDigits_repr, Option.bind_some, hint]

theorem encodePageToken_ne (n : Nat) : encodePageToken base64 n ≠ "" := by
  intro h
  have hdecoded := base64.decode_encode ("v1:" ++ n.repr)
  unfold encodePageToken at h
  rw [h, ← base64.encode_empty, base64.decode_encode] at hdecoded
  have hchars := congrArg String.toList (Option.some.inj hdecoded)
  rw [String.toList_append] at hchars
  cases hchars

theorem decodePageToken_encode {n : Nat} (hn : n < 2 ^ 63) :
    decodePageToken base64 (encodePageToken base64 n) = some n := by
  have hdrop : ("v1:" ++ n.repr).toList.drop 3 = n.repr.toList := by
    rw [String.toList_append]
    rfl
  unfold decodePageToken encodePageToken
  rw [base64.decode_encode]
  dsimp only
  rw [hdrop, atoi_repr hn, if_pos (by rw [String.toList_append]; rfl)]
  exact if_neg (by omega)

theorem paginationRequest_next (n : PageSize) {k : Nat} (hk : k < 2 ^ 63) :
    paginationRequest base64 n.val.repr (encodePageToken base64 k) = .ok ⟨n.val, k⟩ := by
  have htrim : trimSpace (encodePageToken base64 k) = encodePageToken base64 k := base64.trimmed _
  unfold paginationRequest
  rw [requestedSize_repr]
  dsimp only
  rw [htrim, if_neg (encodePageToken_ne k), decodePageToken_encode hk]

theorem paginationRequest_first (n : PageSize) :
    paginationRequest base64 n.val.repr "" = .ok ⟨n.val, 0⟩ := by
  unfold paginationRequest
  rw [requestedSize_repr]
  rfl

variable {α : Type} {c : Collection α} {k : Nat} {got : List α} {token : String} {page : Page α}

/-- The client has the items up to an offset, and the token is for the page there. -/
structure Reached (base64 : Base64) (c : Collection α) (k : Nat) (got : List α) (token : String) :
    Prop where
  inside : k ≤ c.items.length
  got : got = c.items.take k
  token : token = if k < c.items.length then encodePageToken base64 k else ""

theorem listPage_reached {n : PageSize} {text : String}
    (hspec : paginationRequest base64 text token = .ok ⟨n.val, k⟩) (hk : k ≤ c.items.length) :
    ∃ page, listPage base64 c.items text token = .ok page ∧
      Reached base64 c (min (k + n.val) c.items.length) (c.items.take k ++ page.items)
        page.nextPageToken := by
  have htake : c.items.take k = (c.items.take (min (k + n.val) c.items.length)).take k := by
    rw [take_take, Nat.min_eq_left (by omega)]
  unfold listPage
  rw [hspec]
  simp only [paginateJSON, if_neg (Nat.not_lt.mpr hk)]
  refine ⟨_, rfl, Nat.min_le_right _ _, ?_, rfl⟩
  rw [htake, take_append_drop]

theorem Reached.next {c' : Collection α} (h : Reached base64 c k got token) (hne : token ≠ "")
    (hgrows : c.items <+: c'.items) (n : PageSize) : k < c'.items.length ∧
      ∃ page, listPage base64 c'.items n.val.repr token = .ok page ∧
        Reached base64 c' (min (k + n.val) c'.items.length) (got ++ page.items)
          page.nextPageToken := by
  obtain ⟨hk, rfl, htoken⟩ := h
  split at htoken
  · rename_i hlt
    have hlater := hgrows.length_le
    have hfits := c.fits
    obtain ⟨added, hadded⟩ := hgrows
    have htake : c.items.take k = c'.items.take k := by rw [← hadded, take_append_of_le_length hk]
    rw [htoken, htake]
    exact ⟨by omega, listPage_reached (paginationRequest_next n (by omega)) (by omega)⟩
  · exact absurd htoken hne

theorem Reached.ended (h : Reached base64 c k got "") : got = c.items := by
  obtain ⟨hk, rfl, htoken⟩ := h
  split at htoken
  · exact absurd htoken.symm (encodePageToken_ne k)
  · exact take_of_length_le (by omega)

variable {lists : Nat → Collection α} {sizes : Nat → PageSize} {n : Nat}

theorem Traversed.reached (hgrows : ∀ n, (lists n).items <+: (lists (n + 1)).items)
    (h : Traversed base64 lists sizes n got token) : ∃ k, Reached base64 (lists n) k got token := by
  induction h with
  | first hpage =>
    obtain ⟨page, heq, hreached⟩ :=
      listPage_reached (paginationRequest_first (sizes 0)) (Nat.zero_le (lists 0).items.length)
    cases hpage.symm.trans heq
    exact ⟨_, hreached⟩
  | @next n got token page h hne hpage ih =>
    obtain ⟨k, hk⟩ := ih
    obtain ⟨-, page', heq, hreached⟩ := hk.next hne (hgrows n) (sizes (n + 1))
    cases hpage.symm.trans heq
    exact ⟨_, hreached⟩

theorem Traversed.ends (h : Traversed base64 (fun _ => c) sizes n got token)
    (hk : Reached base64 c k got token) :
    ∃ n, Traversed base64 (fun _ => c) sizes n c.items "" := by
  induction hleft : c.items.length - k using Nat.strong_induction_on generalizing n k got token with
  | _ left ih =>
    by_cases hend : token = ""
    · subst hend
      rw [hk.ended] at h
      exact ⟨n, h⟩
    · obtain ⟨hlt, page, hpage, hnext⟩ := hk.next hend (prefix_refl _) (sizes (n + 1))
      have hsize := (sizes (n + 1)).property.1
      exact ih _ (by omega) (h.next hend hpage) hnext rfl

/-- Following the tokens ends and gives the whole list, and while the list grows at its end
a traversal that ends gives the list of its last request. -/
theorem traversal_returns_list (base64 : Base64) (sizes : Nat → PageSize) :
    (∀ c : Collection α, ∃ n, Traversed base64 (fun _ => c) sizes n c.items "") ∧
      ∀ lists : Nat → Collection α, (∀ n, (lists n).items <+: (lists (n + 1)).items) →
        ∀ n got, Traversed base64 lists sizes n got "" → got = (lists n).items := by
  refine ⟨fun c => ?_, fun lists hgrows n got h => ?_⟩
  · obtain ⟨page, hpage, hreached⟩ :=
      listPage_reached (paginationRequest_first (sizes 0)) (Nat.zero_le c.items.length)
    have hfirst : Traversed base64 (fun _ => c) sizes 0 page.items page.nextPageToken :=
      .first hpage
    exact hfirst.ends hreached
  · obtain ⟨k, hk⟩ := h.reached hgrows
    exact hk.ended

def rawURLEncoding : Base64 where
  encode s := Lib.Base64.encode (Lib.Base64.bytes s)
  decode s := ((Lib.Base64.decode s).bind fun bytes =>
    (ByteArray.mk (bytes.map UInt8.ofNat).toArray).utf8Decode?).map
    (fun cs => String.ofList cs.toList)
  decode_encode s := by
    have hbytes : (Lib.Base64.bytes s).map UInt8.ofNat = s.toByteArray.data.toList := by
      simp [Lib.Base64.bytes, Function.comp_def]
    rw [Lib.Base64.decode_encode (Lib.Base64.bytes_lt s), Option.bind_some, hbytes,
      Array.toArray_toList]
    change (s.toByteArray.utf8Decode?).map _ = _
    rw [← String.utf8Encode_toList, utf8Decode?_utf8Encode]
    simp
  encode_empty := rfl
  trimmed s := by
    have hdigit : ∀ m : Fin 64, isSpace (Lib.Base64.digit m) = false := by decide
    refine trimSpace_of_solid fun c hc => ?_
    obtain ⟨m, rfl⟩ := Lib.Base64.mem_encode (Lib.Base64.bytes_lt s) hc
    exact hdigit m

/-- Three items by twos. -/
theorem three_items_traversed :
    let traversed :=
      Traversed rawURLEncoding (fun _ => ⟨[1, 2, 3], by decide⟩) (fun _ => ⟨2, by decide⟩)
    ∃ n, traversed n [1, 2, 3] "" ∧ ∀ got, traversed n got "" → got = [1, 2, 3] := by
  have hall := traversal_returns_list (α := Nat) rawURLEncoding (fun _ => ⟨2, by decide⟩)
  obtain ⟨n, hn⟩ := hall.1 ⟨[1, 2, 3], by decide⟩
  exact ⟨n, hn, hall.2 _ (fun _ => prefix_refl _) n⟩

end AiCloud.HttpApi
