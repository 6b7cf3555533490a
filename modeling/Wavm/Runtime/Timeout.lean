import Wavm.Runtime.WakeAddress
import Mathlib.Data.Rat.Floor

/-! # `getEndTimeFromTimeout`: decoding a wait's timeout

`getEndTimeFromTimeout(startTime, timeout)` (`Threads.cpp`, lines 100–118) turns
the timeout of `atomic.wait`, in seconds, into a deadline on the monotonic clock,
in microseconds. Line 103 computes `timeoutMicroseconds = timeout * 1000.0`; the
model starts from that double, as the exact value it holds:

* NaN and the infinities give `UINT64_MAX` (no deadline);
* a value `≤ 0` gives `startTime`;
* a value `≤ F64(UINT64_MAX - 1)` is converted by `U64(...)` and added to
  `startTime`, and `errorUnless(endTime >= startTime)` catches a wrap;
* anything larger gives `UINT64_MAX`.

`F64(UINT64_MAX - 1)` is the double nearest to `2^64 - 2`, which is `2^64`
(`natToF64_uint64Max_sub_one`). So the value `2^64` passes the check and reaches
`U64(2^64)`, a conversion whose result does not fit in 64 bits
(`getEndTimeFromTimeout_two_pow_64`). Below `2^64` the conversion is defined and the
`errorUnless` fails exactly when the sum wraps (`getEndTimeFromTimeout_of_lt`).
`TimeoutRounding` models the product of line 103 itself.
-/

namespace Wavm.Runtime

/-- A binary64 value, by the exact value it holds. -/
inductive F64 where
  | nan
  | inf (negative : Bool)
  | finite (value : ℚ)
  deriving DecidableEq, Repr

/-- `F64(x)` for a natural number `x` below `2^1024`: the nearest double, ties to
even. A double keeps 53 significant bits, so `x` is cut after its top 53 bits and
rounded on the part cut off. -/
def natToF64 (x : Nat) : Nat :=
  if x < 2 ^ 53 then x
  else
    let shift := x.log2 - 52
    let q := x / 2 ^ shift
    let r := x % 2 ^ shift
    (if 2 ^ shift < 2 * r ∨ (2 * r = 2 ^ shift ∧ q % 2 = 1) then q + 1 else q) * 2 ^ shift

theorem log2_eq_of_bounds {x k : Nat} (h1 : 2 ^ k ≤ x) (h2 : x < 2 ^ (k + 1)) :
    x.log2 = k := by
  have hx : x ≠ 0 := by have := Nat.one_le_two_pow (n := k); omega
  exact Nat.le_antisymm (Nat.lt_succ_iff.mp ((Nat.log2_lt hx).mpr h2)) ((Nat.le_log2 hx).mpr h1)

/-- The constant of line 110: `UINT64_MAX - 1` rounds up to `2^64`. -/
theorem natToF64_uint64Max_sub_one : natToF64 (uint64Max - 1) = 2 ^ 64 := by
  have hlog : (uint64Max - 1).log2 = 63 :=
    log2_eq_of_bounds (by simp [uint64Max]) (by simp [uint64Max])
  simp only [natToF64, hlog]
  decide

/-- The failures of `getEndTimeFromTimeout`: a float-to-integer conversion whose
value does not fit (undefined in C++), or the `errorUnless` at line 113. -/
inductive TimeoutFailure where
  | undefinedConversion
  | errorUnless
  deriving DecidableEq, Repr

/-- `U64(x)` for a positive double: truncation toward zero, defined only when the
result fits in 64 bits. -/
def f64ToU64 (x : ℚ) : Except TimeoutFailure Nat :=
  if ⌊x⌋₊ < 2 ^ 64 then .ok ⌊x⌋₊ else .error .undefinedConversion

/-- Lines 104–117, from `timeoutMicroseconds`; the `U64` sum wraps modulo `2^64`. -/
def getEndTimeFromTimeout (startTime : Nat) (timeoutMicroseconds : F64) :
    Except TimeoutFailure Nat :=
  match timeoutMicroseconds with
  | .nan | .inf _ => .ok uint64Max
  | .finite micros =>
    if micros ≤ 0 then .ok startTime
    else if micros ≤ natToF64 (uint64Max - 1) then do
      let endTime := (startTime + (← f64ToU64 micros)) % 2 ^ 64
      if startTime ≤ endTime then .ok endTime else .error .errorUnless
    else .ok uint64Max

/-! ## What the decoding does -/

theorem getEndTimeFromTimeout_nan (startTime : Nat) :
    getEndTimeFromTimeout startTime .nan = .ok uint64Max := rfl

theorem getEndTimeFromTimeout_inf (startTime : Nat) (negative : Bool) :
    getEndTimeFromTimeout startTime (.inf negative) = .ok uint64Max := rfl

/-- `errorUnless(endTime >= startTime)` fails exactly when the sum wraps. -/
theorem wrap_iff {startTime v : Nat} (hs : startTime < 2 ^ 64) (hv : v < 2 ^ 64) :
    startTime ≤ (startTime + v) % 2 ^ 64 ↔ startTime + v < 2 ^ 64 := by
  constructor
  · intro h
    by_contra hge
    rw [Nat.mod_eq_sub_mod (Nat.le_of_not_lt hge), Nat.mod_eq_of_lt (by omega)] at h
    omega
  · intro h; rw [Nat.mod_eq_of_lt h]; omega

theorem natToF64_uint64Max_sub_one_cast : ((natToF64 (uint64Max - 1) : ℕ) : ℚ) = 2 ^ 64 := by
  rw [natToF64_uint64Max_sub_one]; norm_num

theorem getEndTimeFromTimeout_of_nonpos (startTime : Nat) {r : ℚ} (h : r ≤ 0) :
    getEndTimeFromTimeout startTime (.finite r) = .ok startTime := by
  simp only [getEndTimeFromTimeout, if_pos h]

theorem getEndTimeFromTimeout_of_gt (startTime : Nat) {r : ℚ} (h : 2 ^ 64 < r) :
    getEndTimeFromTimeout startTime (.finite r) = .ok uint64Max := by
  have h0 : ¬r ≤ 0 := not_le.mpr (lt_trans (by norm_num) h)
  simp only [getEndTimeFromTimeout, natToF64_uint64Max_sub_one_cast, if_neg h0,
    if_neg (not_le.mpr h)]

/-- Below `2^64` the conversion at line 112 is defined, and the `errorUnless` fails
exactly when the sum wraps. -/
theorem getEndTimeFromTimeout_of_lt {startTime : Nat} (hs : startTime < 2 ^ 64) {r : ℚ}
    (h0 : 0 ≤ r) (h : r < 2 ^ 64) :
    getEndTimeFromTimeout startTime (.finite r) =
      if startTime + ⌊r⌋₊ < 2 ^ 64 then .ok (startTime + ⌊r⌋₊) else .error .errorUnless := by
  rcases h0.eq_or_lt with rfl | hr
  · rw [getEndTimeFromTimeout_of_nonpos _ le_rfl, Nat.floor_zero, add_zero, if_pos hs]
  have hlt : ⌊r⌋₊ < 2 ^ 64 := (Nat.floor_lt h0).mpr (by exact_mod_cast h)
  simp only [getEndTimeFromTimeout, if_neg (not_le.mpr hr), natToF64_uint64Max_sub_one_cast,
    if_pos h.le, f64ToU64, if_pos hlt]
  by_cases h3 : startTime + ⌊r⌋₊ < 2 ^ 64
  · simp only [bind, Except.bind, if_pos h3, Nat.mod_eq_of_lt h3, if_pos (Nat.le_add_right _ _)]
  · simp only [bind, Except.bind, if_neg h3, if_neg ((wrap_iff hs hlt).not.mpr h3)]

example : getEndTimeFromTimeout 5 (.finite (5 / 2)) = .ok 7 := by
  have hf : ⌊(5 / 2 : ℚ)⌋₊ = 2 := by exact_mod_cast Nat.floor_div_eq_div (α := ℚ) 5 2
  rw [getEndTimeFromTimeout_of_lt (by norm_num) (by norm_num) (by norm_num), hf]
  norm_num

/-- At `2^64`, which `timeout = 18446744073709552.0` seconds gives at line 103, the
check at line 110 passes and line 112 converts `2^64`, which does not fit. -/
theorem getEndTimeFromTimeout_two_pow_64 :
    natToF64 (18446744073709552 * 1000) = 2 ^ 64 ∧
    ∀ startTime, getEndTimeFromTimeout startTime (.finite (2 ^ 64)) =
      .error .undefinedConversion := by
  refine ⟨?_, fun startTime => ?_⟩
  · have hlog : (18446744073709552 * 1000).log2 = 64 := log2_eq_of_bounds (by norm_num) (by norm_num)
    simp only [natToF64, hlog]
    decide
  · have hmax : ((natToF64 (uint64Max - 1) : ℕ) : ℚ) = 2 ^ 64 := by
      rw [natToF64_uint64Max_sub_one]; norm_num
    have hf : ⌊(2 ^ 64 : ℚ)⌋₊ = 2 ^ 64 := by exact_mod_cast Nat.floor_natCast (2 ^ 64)
    simp only [getEndTimeFromTimeout, hmax, f64ToU64, hf, lt_irrefl, if_false, le_refl, if_true,
      bind, Except.bind]
    norm_num

end Wavm.Runtime
