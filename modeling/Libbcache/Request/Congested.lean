import Mathlib.Data.Int.Defs
import Mathlib.Data.Nat.Bits
import Mathlib.Tactic.NormNum

/-!
# Congestion: `bch_get_congested`

`bch_get_congested` turns the time since the cache set last recorded congestion into
an `int` count of 1024 µs units, adds the (non-positive) congestion counter and, while
the sum is negative, reports a positive congestion level, dithered by the popcount of a
random word.

The elapsed time is a difference of two `u64` clock readings, and the code stores its
quotient by 1024 in an `int`. We model that conversion as it behaves on the kernel's
targets: the low 32 bits, read in two's complement (`toInt32`). `fract_exp_two` and
`CONGESTED_MAX` are defined outside this repository and are parameters.
-/

namespace Libbcache

/-- The low 32 bits of `x`, read as a two's complement `int`: the C conversion of an
integer to `int` on the kernel's targets. -/
def toInt32 (x : Int) : Int :=
  let m := x % 2 ^ 32
  if m < 2 ^ 31 then m else m - 2 ^ 32

/-- `bitmap_weight(&rand, BITS_PER_LONG)`: the number of set bits of a 64-bit word. -/
def bitmapWeight (r : Nat) : Nat := (List.range 64).countP fun i => r.testBit i

/-- The fields of `struct cache_set` that `bch_get_congested` reads. Clock values are
`u64` microseconds and `congested` is the `atomic_t` counter. -/
structure Congestion where
  congestedReadThresholdUs : Nat
  congestedWriteThresholdUs : Nat
  congestedLastUs : Nat
  congested : Int
  deriving DecidableEq, Repr

/-- `bch_get_congested` at clock reading `now` (`local_clock_us()`) with `rand` the
`get_random_int()` value, sign-extended into the `long` whose bits are counted. -/
def bchGetCongested (congestedMax : Int) (fractExpTwo : Int → Nat → Int)
    (c : Congestion) (now : Nat) (rand : Int) : Nat :=
  if c.congestedReadThresholdUs = 0 ∧ c.congestedWriteThresholdUs = 0 then 0
  else
    let i := toInt32 (((now + 2 ^ 64 - c.congestedLastUs) % 2 ^ 64 / 1024 : Nat))
    if i < 0 then 0
    else
      let i := toInt32 (i + c.congested)
      if 0 ≤ i then 0
      else
        let i := toInt32 (i + congestedMax)
        let i := if 0 < i then fractExpTwo i 6 else i
        let i := toInt32 (i - bitmapWeight (rand % 2 ^ 64).toNat)
        if 0 < i then i.toNat else 1

/-- The `int` count of 1024 µs units since congestion was last recorded, as
`bch_get_congested` computes it. -/
def elapsedUnits (c : Congestion) (now : Nat) : Int :=
  toInt32 (((now + 2 ^ 64 - c.congestedLastUs) % 2 ^ 64 / 1024 : Nat))

/-- The last line of `bch_get_congested`, `return i > 0 ? i : 1`, never returns `0`. -/
theorem level_ne_zero (i : Int) : (if 0 < i then i.toNat else 1) ≠ 0 := by
  split_ifs <;> omega

/-- `bch_get_congested` returns `0` exactly at its three early returns: both thresholds
off, a negative elapsed count, or a non-negative sum of elapsed count and counter.
Otherwise it returns at least `1`. -/
theorem bchGetCongested_eq_zero_iff (congestedMax : Int) (fractExpTwo : Int → Nat → Int)
    (c : Congestion) (now : Nat) (rand : Int) :
    bchGetCongested congestedMax fractExpTwo c now rand = 0 ↔
      (c.congestedReadThresholdUs = 0 ∧ c.congestedWriteThresholdUs = 0) ∨
      elapsedUnits c now < 0 ∨ 0 ≤ toInt32 (elapsedUnits c now + c.congested) := by
  unfold bchGetCongested
  rw [← elapsedUnits]
  by_cases h1 : c.congestedReadThresholdUs = 0 ∧ c.congestedWriteThresholdUs = 0
  · simp [h1]
  by_cases h2 : elapsedUnits c now < 0
  · simp [h2]
  by_cases h3 : 0 ≤ toInt32 (elapsedUnits c now + c.congested)
  · simp [h3]
  simp only [h1, h2, h3, if_false, false_or, iff_false]
  exact level_ne_zero _

/-- After `2^42` µs (about 50 days) without congestion the elapsed count `2^32` is stored
in the `int` as `0`, so a counter of `-1` makes `bch_get_congested` report congestion,
although the exact elapsed count plus the counter, `2^32 - 1`, is far from negative. -/
theorem bchGetCongested_wraps_after_2_pow_42_us (congestedMax : Int)
    (fractExpTwo : Int → Nat → Int) (rand : Int) :
    ((((2 ^ 42 - 0) / 1024 : Nat) : Int) + (-1) ≥ 0) ∧
    bchGetCongested congestedMax fractExpTwo ⟨1, 0, 0, -1⟩ (2 ^ 42) rand ≠ 0 := by
  refine ⟨by norm_num, ?_⟩
  have hq : elapsedUnits ⟨1, 0, 0, -1⟩ (2 ^ 42) = 0 := by norm_num [elapsedUnits, toInt32]
  rw [Ne, bchGetCongested_eq_zero_iff, hq]
  norm_num [toInt32]

end Libbcache
