import Mathlib.Algebra.Ring.GeomSum
import Reconciliation.Duration

/-!
# How long delays are

`Duration.toNanos` tells how a time span is made and multiplied: as natural numbers are, up to the
longest time span.  So the delays before repeated calls are twice as long each time
(`Duration.toMillisCeil_backoff`), and together make a geometric sum
(`Duration.sum_toMillisCeil_backoff`).

Two bounds meet in a delay, that of the factor and that of the product.  It never wraps around at
either of them (`Duration.backoffFactor_eq`, `Duration.toNanos_scale`), so no later delay is shorter
than an earlier one.
-/

namespace Reconciliation.Duration

variable {d : Duration} {seconds nanos ms n : Nat}

theorem toNanos_longest :
  longest.toNanos = 18446744073709551615999999999
  := rfl

/-! ### Arithmetic up to the longest time span -/

theorem toNanos_make (seconds nanos : Nat) :
  (make seconds nanos).toNanos = min (seconds * nanosPerSecond + nanos) longest.toNanos
  := by
  rw [make]
  split
  · next h =>
    have h : seconds + nanos / 1000000000 < 18446744073709551616 := h
    show (seconds + nanos / 1000000000) * 1000000000 + nanos % 1000000000
      = min (seconds * 1000000000 + nanos) 18446744073709551615999999999
    omega
  · next h =>
    have h : ¬ seconds + nanos / 1000000000 < 18446744073709551616 := h
    rw [toNanos_longest, nanosPerSecond]
    omega

theorem toNanos_scale (d : Duration) (n : Nat) :
  (d.scale n).toNanos = min (d.toNanos * n) longest.toNanos
  := by
  have hproduct : d.toNanos * n = d.seconds * n * nanosPerSecond + d.nanos * n := by
    rw [toNanos, Nat.add_mul, Nat.mul_right_comm]
  rw [scale, toNanos_make, hproduct]

theorem toNanos_ofMillis (ms : Nat) :
  (ofMillis ms).toNanos = min (ms * 1000000) longest.toNanos
  := by
  have hms : ms / 1000 * nanosPerSecond + ms % 1000 * 1000000 = ms * 1000000 := by
    rw [nanosPerSecond]
    omega
  rw [ofMillis, toNanos_make, hms]

theorem toMillisCeil_eq (d : Duration) :
  d.toMillisCeil = (d.toNanos + 999999) / 1000000
  := by
  rw [toMillisCeil, toNanos, nanosPerSecond]
  omega

/-- What is no empty time span takes some time. -/
theorem toMillisCeil_pos (h : 0 < d.toNanos) :
  0 < d.toMillisCeil
  := by
  rw [toMillisCeil_eq]
  omega

theorem toNanos_pos (h : d ≠ zero) :
  0 < d.toNanos
  := by
  by_contra hnot
  apply h
  obtain ⟨seconds, nanos, hseconds, hnanos⟩ := d
  rw [toNanos, nanosPerSecond] at hnot
  dsimp only at hnot
  obtain rfl : seconds = 0 := by omega
  obtain rfl : nanos = 0 := by omega
  rfl

theorem toNanos_injective :
  Function.Injective toNanos
  := by
  intro d e h
  obtain ⟨s, n, hs, hn⟩ := d
  obtain ⟨s', n', hs', hn'⟩ := e
  simp only [toNanos, nanosPerSecond] at h hn hn'
  obtain rfl : s = s' := by omega
  obtain rfl : n = n' := by omega
  rfl

/-- Time spans are compared by their length. -/
instance : PartialOrder Duration :=
  PartialOrder.lift toNanos toNanos_injective

theorem le_iff_toNanos_le {d e : Duration} :
  d ≤ e ↔ d.toNanos ≤ e.toNanos
  := Iff.rfl

theorem scale_le_scale {d e : Duration} (hd : d ≤ e) {m n : Nat} (hn : m ≤ n) :
  d.scale m ≤ e.scale n
  := by
  rw [le_iff_toNanos_le, toNanos_scale, toNanos_scale]
  apply min_le_min_right
  exact Nat.mul_le_mul hd hn

/-! ### Delays -/

theorem backoffFactor_of_lt (h : n < 32) :
  backoffFactor n = 2 ^ n
  := by
  rw [backoffFactor, if_pos h, Nat.one_shiftLeft]

theorem backoffFactor_pos (n : Nat) :
  0 < backoffFactor n
  := by
  by_cases h : n < 32
  · rw [backoffFactor_of_lt h]
    exact Nat.two_pow_pos n
  · rw [backoffFactor, if_neg h]
    decide

theorem backoffFactor_eq (attempt : Nat) :
  backoffFactor attempt = min (2 ^ attempt) (2 ^ 32 - 1)
  := by
  by_cases h : attempt < 32
  · have hlt : 2 ^ attempt < 2 ^ 32 := Nat.pow_lt_pow_right (by decide) h
    rw [backoffFactor_of_lt h, Nat.min_eq_left]
    omega
  · have hle : 2 ^ 32 ≤ 2 ^ attempt := Nat.pow_le_pow_right (by decide) (Nat.not_lt.1 h)
    rw [backoffFactor, if_neg h, Nat.min_eq_right]
    · rfl
    · omega

theorem monotone_backoffFactor :
  Monotone backoffFactor
  := by
  intro attempt later h
  rw [backoffFactor_eq, backoffFactor_eq]
  apply min_le_min_right
  exact Nat.pow_le_pow_right (by decide) h

/-- There is some time before each repeated call just if there is some before the first one. -/
theorem toNanos_backoff_pos_iff {base : Duration} {attempt : Nat} :
  0 < (base.backoff attempt).toNanos ↔ 0 < base.toNanos
  := by
  rw [backoff, toNanos_scale, lt_min_iff, Nat.mul_pos_iff_of_pos_right (backoffFactor_pos attempt)]
  exact and_iff_left (by decide)

theorem toMillisCeil_backoff_pos (h : d ≠ zero) (attempt : Nat) :
  0 < (d.backoff attempt).toMillisCeil
  := toMillisCeil_pos (toNanos_backoff_pos_iff.2 (toNanos_pos h))

/-- A delay is the exact product, up to the longest time span.  There is some delay just if there is
some at first, and delays grow with the number of attempts and with the first of them. -/
theorem backoff_saturates (base : Duration) (attempt : Nat) :
  (base.backoff attempt).toNanos
      = min (base.toNanos * min (2 ^ attempt) (2 ^ 32 - 1)) longest.toNanos ∧
    longest.toNanos = 2 ^ 64 * 10 ^ 9 - 1 ∧
    (base.backoff attempt).nanos < 10 ^ 9 ∧
    (0 < (base.backoff attempt).toNanos ↔ 0 < base.toNanos) ∧
    Monotone base.backoff ∧
    Monotone fun d : Duration => d.backoff attempt
  := by
  refine ⟨?_, rfl, (base.backoff attempt).nanos_lt, toNanos_backoff_pos_iff, ?_, ?_⟩
  · rw [backoff, toNanos_scale, backoffFactor_eq]
  · intro attempt later h
    exact scale_le_scale le_rfl (monotone_backoffFactor h)
  · intro d e h
    exact scale_le_scale h le_rfl

-- One nanosecond more, and the product is longer than the longest time span.
example :
  ({ seconds := 0x100000001, nanos := 0, seconds_lt := by decide, nanos_lt := by decide }
      : Duration).backoff 32
    = { longest with nanos := 0, nanos_lt := by decide }
  := by decide

example :
  ({ seconds := 0x100000001, nanos := 1, seconds_lt := by decide, nanos_lt := by decide }
      : Duration).backoff 32
    = longest
  := by decide

theorem ofMillis_ne_zero (h : 0 < ms) :
  ofMillis ms ≠ zero
  := by
  intro heq
  have hnanos := congrArg toNanos heq
  rw [toNanos_ofMillis, toNanos_longest] at hnanos
  have hzero : zero.toNanos = 0 := rfl
  omega

/-- The delay doubles each time, as long as it can be represented. -/
theorem toMillisCeil_backoff {base attempt : Nat} (hattempt : attempt < 32)
    (hfits : base * 2 ^ attempt ≤ longest.toMillis) :
  ((ofMillis base).backoff attempt).toMillisCeil = base * 2 ^ attempt
  := by
  have hlongest : longest.toMillis = 18446744073709551615999 := rfl
  have hbase : base ≤ base * 2 ^ attempt := Nat.le_mul_of_pos_right base (Nat.two_pow_pos attempt)
  rw [hlongest] at hfits
  have hmillis : (ofMillis base).toNanos = base * 1000000 := by
    rw [toNanos_ofMillis, toNanos_longest]
    omega
  rw [toMillisCeil_eq, backoff, toNanos_scale, hmillis, backoffFactor_of_lt hattempt,
    toNanos_longest, Nat.mul_right_comm]
  omega

/-- The delays before the first repeated calls, taken together. -/
theorem sum_toMillisCeil_backoff {base n : Nat} (hn : n ≤ 32)
    (hfits : ∀ i < n, base * 2 ^ i ≤ longest.toMillis) :
  ∑ i ∈ Finset.range n, ((ofMillis base).backoff i).toMillisCeil = base * (2 ^ n - 1)
  := by
  have hdelay : ∀ i ∈ Finset.range n,
      ((ofMillis base).backoff i).toMillisCeil = base * 2 ^ i := by
    intro i hi
    rw [Finset.mem_range] at hi
    exact toMillisCeil_backoff (hi.trans_le hn) (hfits i hi)
  rw [Finset.sum_congr rfl hdelay, ← Finset.mul_sum, Nat.geomSum_eq (Nat.le_refl 2)]
  simp

end Reconciliation.Duration
