import AiCloud.Lib.Text
import Mathlib.Data.List.Basic
import Mathlib.Data.Int.Notation

/-!
# Consecutive numbers

The numbers an allocator hands out that always takes the next one. Two numbers with one
decimal are one number.
-/
namespace AiCloud.Lib
open List

variable (base : Int)

/-- The `n` numbers after `base`. -/
def numbersFrom (n : Nat) : List Int := (range n).map (fun i : Nat => base + 1 + (i : Int))

theorem numbersFrom_succ (n : Nat) :
    numbersFrom base (n + 1) = numbersFrom base n ++ [base + 1 + n] := by
  simp [numbersFrom, range_succ]

theorem numbersFrom_cons (n : Nat) :
    numbersFrom base (n + 1) = (base + 1) :: numbersFrom (base + 1) n := by
  unfold numbersFrom
  rw [range_succ_eq_map, map_cons, map_map]
  congr 1
  · simp
  apply map_congr_left
  intro i _
  simp only [Function.comp_apply, Nat.succ_eq_add_one, Int.natCast_add, Int.natCast_one]
  omega

theorem numbersFrom_add (m n : Nat) :
    numbersFrom base (m + n) = numbersFrom base m ++ numbersFrom (base + m) n := by
  unfold numbersFrom
  rw [range_add, map_append, map_map]
  congr 1
  apply map_congr_left
  intro i _
  simp only [Function.comp_apply, Int.natCast_add]
  omega

theorem mem_numbersFrom {base v : Int} {n : Nat} (h : v ∈ numbersFrom base n) :
    base < v ∧ v ≤ base + n := by
  simp only [numbersFrom, mem_map, mem_range] at h
  obtain ⟨i, hi, rfl⟩ := h
  omega

/-- The largest number handed out so far is how many there are. -/
theorem foldl_max_numbersFrom (n : Nat) : (numbersFrom 0 n).foldl max 0 = n := by
  induction n with
  | zero => rfl
  | succ n ih =>
    rw [numbersFrom_succ, foldl_append, ih]
    simp only [foldl_cons, foldl_nil, Int.natCast_add, Int.natCast_one]
    omega

theorem le_foldl_max (numbers : List Int) (base : Int) : base ≤ numbers.foldl max base := by
  induction numbers generalizing base with
  | nil => exact Int.le_refl base
  | cons n rest ih => exact Int.le_trans (Int.le_max_left base n) (ih (max base n))

end AiCloud.Lib

namespace AiCloud.Lib.Text

theorem nat_repr_inj {a b : Nat} (h : a.repr = b.repr) : a = b := by
  rw [Nat.repr_eq_ofList_toDigits, Nat.repr_eq_ofList_toDigits] at h
  have hdigits : Nat.toDigits 10 a = Nat.toDigits 10 b := String.ofList_injective h
  rw [← Nat.ofDigitChars_ten_toDigits (n := a), hdigits, Nat.ofDigitChars_ten_toDigits]

/-- The digits of a number; there has to be one. -/
def parseDigits (digits : List Char) : Option Nat :=
  if digits ≠ [] ∧ ∀ c ∈ digits, c.isDigit = true then some (Nat.ofDigitChars 10 digits 0) else none

theorem isDigit_of_mem_repr {n : Nat} {c : Char} (hc : c ∈ n.repr.toList) : c.isDigit = true := by
  rw [Nat.repr_eq_ofList_toDigits, String.toList_ofList] at hc
  exact Nat.isDigit_of_mem_toDigits (by decide) (by decide) hc

theorem repr_toList_ne_nil (n : Nat) : n.repr.toList ≠ [] := by
  rw [Nat.repr_eq_ofList_toDigits, String.toList_ofList]
  exact Nat.toDigits_ne_nil

theorem parseDigits_repr (n : Nat) : parseDigits n.repr.toList = some n := by
  unfold parseDigits
  rw [if_pos ⟨repr_toList_ne_nil n, fun c => isDigit_of_mem_repr⟩, Nat.repr_eq_ofList_toDigits,
    String.toList_ofList, Nat.ofDigitChars_ten_toDigits]

theorem nat_repr_ne_negative (a : Nat) (s : String) : a.repr ≠ "-" ++ s := by
  intro h
  have hmem : '-' ∈ a.repr.toList := by simp [h]
  exact absurd (isDigit_of_mem_repr hmem) (by decide)

theorem int_repr_inj {a b : Int} (h : a.repr = b.repr) : a = b := by
  rw [Int.repr_eq_if, Int.repr_eq_if] at h
  split at h <;> split at h
  · have := nat_repr_inj h
    omega
  · exact absurd h (nat_repr_ne_negative _ _)
  · exact absurd h.symm (nat_repr_ne_negative _ _)
  · have := nat_repr_inj ((String.append_right_inj _).mp h)
    omega

end AiCloud.Lib.Text
