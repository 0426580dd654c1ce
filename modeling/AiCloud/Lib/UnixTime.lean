import Mathlib.Data.Rat.Floor

/-!
# Instants from floating-point seconds

Conversion of a number of seconds since 1970 into an instant that counts nanoseconds, as
64-bit machines do it: the seconds are cut to a 64-bit integer, and an instant keeps its
seconds as a 64-bit count from the year 1.
-/
namespace AiCloud.Lib.UnixTime

/-- Towards zero. -/
def truncate (x : Rat) : Int := if 0 ≤ x then ⌊x⌋ else ⌈x⌉

/-- `int64(x)` for a floating-point number; a number out of range gives the least integer. -/
def toInt64 (x : Rat) : Int :=
  if -2 ^ 63 ≤ truncate x ∧ truncate x < 2 ^ 63 then truncate x else -2 ^ 63

/-- The value of a 64-bit sum. -/
def wrap64 (n : Int) : Int := (n + 2 ^ 63) % 2 ^ 64 - 2 ^ 63

/-- Seconds between the years 1 and 1970. -/
def unixToInternal : Int := 62135596800

def nanosPerSecond : Int := 1000000000

/-- `time.Unix(sec, nsec)` in nanoseconds since 1970. -/
def unix (sec nsec : Int) : Int :=
  let total := sec * nanosPerSecond + nsec
  (wrap64 (total / nanosPerSecond + unixToInternal) - unixToInternal) * nanosPerSecond +
    total % nanosPerSecond

theorem wrap64_eq_self {n : Int} (hlow : -2 ^ 63 ≤ n) (hhigh : n < 2 ^ 63) : wrap64 n = n := by
  unfold wrap64
  omega

/-- The instant of a number of seconds: whole seconds and nanoseconds are cut out one by
one, the nanoseconds from a rounded product. -/
def fromSeconds (round : Rat → Rat) (seconds : Rat) : Int :=
  unix (toInt64 seconds) (toInt64 (round ((seconds - truncate seconds) * nanosPerSecond)))

/-- Seconds whose instant exists. -/
def InRange (seconds : Rat) : Prop :=
  -2 ^ 63 ≤ truncate seconds ∧ truncate seconds + unixToInternal + 1 < 2 ^ 63

theorem truncate_near (x : Rat) : |(truncate x : Rat) - x| < 1 := by
  unfold truncate
  split
  · rw [abs_lt]
    have h₁ := Int.floor_le x
    have h₂ := Int.lt_floor_add_one x
    constructor <;> linarith
  · rw [abs_lt]
    have h₁ := Int.le_ceil x
    have h₂ := Int.ceil_lt_add_one x
    constructor <;> linarith

theorem toInt64_of_bounds {x : Rat} (hlow : -2 ^ 63 ≤ truncate x) (hhigh : truncate x < 2 ^ 63) :
    toInt64 x = truncate x := if_pos ⟨hlow, hhigh⟩

theorem unix_eq {sec nsec : Int} (hlow : -2 ^ 63 ≤ sec) (hhigh : sec + unixToInternal + 1 < 2 ^ 63)
    (hn : -1000000002 < nsec) (hn' : nsec < 1000000002) :
    unix sec nsec = sec * nanosPerSecond + nsec := by
  unfold unix nanosPerSecond unixToInternal at *
  dsimp only
  rw [wrap64_eq_self (by omega) (by omega)]
  omega

/-- Where the rounding of the product is off by less than one nanosecond, the instant is
off by less than two. -/
theorem fromSeconds_near {round : Rat → Rat} {seconds : Rat}
    (hround : ∀ x, |x| < 1000000000 → |round x - x| < 1) (h : InRange seconds) :
    |(fromSeconds round seconds : Rat) - seconds * 1000000000| < 2 := by
  have hwhole : toInt64 seconds = truncate seconds :=
    toInt64_of_bounds h.1 (by have := h.2; unfold unixToInternal at this; omega)
  have hpart := abs_lt.mp (truncate_near seconds)
  have hfrac : |(seconds - truncate seconds) * nanosPerSecond| < 1000000000 := by
    unfold nanosPerSecond
    push_cast
    rw [abs_lt]
    constructor <;> linarith
  have hr := abs_lt.mp (hround _ hfrac)
  have ht := abs_lt.mp (truncate_near (round ((seconds - truncate seconds) * nanosPerSecond)))
  have hf := abs_lt.mp hfrac
  generalize hx : round ((seconds - truncate seconds) * nanosPerSecond) = x at hr ht
  have hbelow : -1000000002 < truncate x := by
    have : (-1000000002 : Rat) < (truncate x : Rat) := by linarith
    exact_mod_cast this
  have habove : truncate x < 1000000002 := by
    have : (truncate x : Rat) < 1000000002 := by linarith
    exact_mod_cast this
  unfold fromSeconds
  rw [hx, hwhole, toInt64_of_bounds (by omega) (by omega), unix_eq h.1 h.2 hbelow habove]
  unfold nanosPerSecond at hr ⊢
  push_cast at hr ⊢
  rw [abs_lt]
  constructor <;> linarith

end AiCloud.Lib.UnixTime
