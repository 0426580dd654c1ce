import Mathlib.Data.List.Basic

/-!
# Base64

The URL alphabet (letters, digits, `-` and `_`) without padding: three bytes are four
digits of six bits, and one or two bytes at the end are one digit more than there are bytes.
-/
namespace AiCloud.Lib.Base64

open List

def digit (n : Nat) : Char :=
  if n < 26 then Char.ofNat (n + 65) else if n < 52 then Char.ofNat (n + 71)
  else if n < 62 then Char.ofNat (n - 4) else if n = 62 then '-' else '_'

def value (c : Char) : Option Nat :=
  if c.isUpper then some (c.toNat - 65) else if c.isLower then some (c.toNat - 71)
  else if c.isDigit then some (c.toNat + 4)
  else if c = '-' then some 62 else if c = '_' then some 63 else none

def split : List Nat → List Nat
  | [] => []
  | [a] => [a / 4, a % 4 * 16]
  | [a, b] => [a / 4, a % 4 * 16 + b / 16, b % 16 * 4]
  | a :: b :: c :: rest =>
    a / 4 :: (a % 4 * 16 + b / 16) :: (b % 16 * 4 + c / 64) :: c % 64 :: split rest

/-- Bits that do not fill a byte are dropped. -/
def join : List Nat → Option (List Nat)
  | [] => some []
  | [_] => none
  | [w, x] => some [w * 4 + x / 16]
  | [w, x, y] => some [w * 4 + x / 16, x % 16 * 16 + y / 4]
  | w :: x :: y :: z :: rest => (join rest).map (fun bytes =>
    (w * 4 + x / 16) :: (x % 16 * 16 + y / 4) :: (y % 4 * 64 + z) :: bytes)

def encode (bytes : List Nat) : String := String.ofList ((split bytes).map digit)

def decode (text : String) : Option (List Nat) := (text.toList.mapM value).bind join

/-- The UTF-8 bytes of a text. -/
def bytes (text : String) : List Nat := text.toByteArray.data.toList.map UInt8.toNat

theorem bytes_lt (text : String) : ∀ b ∈ bytes text, b < 256 := by
  intro b hb
  obtain ⟨byte, -, rfl⟩ := mem_map.mp hb
  exact byte.toNat_lt

variable {bytes : List Nat}

theorem split_lt (h : ∀ b ∈ bytes, b < 256) : ∀ n ∈ split bytes, n < 64 := by
  fun_induction split bytes with
  | case1 => exact forall_mem_nil _
  | case2 | case3 =>
    simp at h ⊢
    omega
  | case4 a b c rest ih =>
    simp only [forall_mem_cons] at h ⊢
    exact ⟨by omega, by omega, by omega, by omega, ih h.2.2.2⟩

theorem mem_encode (h : ∀ b ∈ bytes, b < 256) {c : Char} (hc : c ∈ (encode bytes).toList) :
    ∃ m : Fin 64, c = digit m := by
  rw [encode, String.toList_ofList] at hc
  obtain ⟨n, hn, rfl⟩ := mem_map.mp hc
  exact ⟨⟨n, split_lt h n hn⟩, rfl⟩

theorem join_split (h : ∀ b ∈ bytes, b < 256) : join (split bytes) = some bytes := by
  fun_induction split bytes with
  | case1 => rfl
  | case2 | case3 =>
    simp at h
    simp only [join, Option.some.injEq, cons.injEq, and_true]
    omega
  | case4 a b c rest ih =>
    simp only [forall_mem_cons] at h
    simp only [join, ih h.2.2.2, Option.map_some, Option.some.injEq, cons.injEq, and_true]
    omega

theorem value_digit {n : Nat} (h : n < 64) : value (digit n) = some n := by
  have hall : ∀ m : Fin 64, value (digit m) = some m.val := by decide
  exact hall ⟨n, h⟩

theorem decode_encode (h : ∀ b ∈ bytes, b < 256) : decode (encode bytes) = some bytes := by
  have hdigits : ∀ ns : List Nat, (∀ n ∈ ns, n < 64) →
      (ns.map digit).mapM value = some ns := by
    intro ns hns
    induction ns with
    | nil => rfl
    | cons n rest ih =>
      obtain ⟨hn, hrest⟩ := forall_mem_cons.mp hns
      simp [mapM_cons, value_digit hn, ih hrest]
  unfold decode encode
  rw [String.toList_ofList, hdigits _ (split_lt h)]
  exact join_split h

end AiCloud.Lib.Base64
