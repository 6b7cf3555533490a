import Wavm.Runtime.Timeout
import Mathlib.Data.Int.Log

/-! # Line 103: `timeout * 1000.0`, rounded

`getEndTimeFromTimeout(startTime, timeout)` starts with `timeoutMicroseconds =
timeout * 1000.0`, a product of doubles: the exact product, rounded to the nearest
double, ties to even, and an infinity once it passes the largest double. `roundF64`
is that rounding and `timeoutMicroseconds` the product; `Timeout` decodes the
result. Over every timeout in seconds:

* `roundF64` gives a double, and no double is nearer the exact value
  (`roundF64_nearest`); it leaves a double unchanged (`roundF64_of_isDouble`), and
  is monotone (`roundMag_mono`);
* it gives `2^64` exactly from `[2^64 - 2^10, 2^64 + 2^11]`
  (`roundF64_eq_two_pow_64`), and overflows exactly from `2^1024 - 2^970`
  (`roundMag_overflow`);
* so the decoding of lines 101–118 is known for every timeout
  (`getEndTimeFromTimeout_seconds`). A negative timeout whose product overflows
  becomes `-∞`, which the `isfinite` test of line 105 turns into no deadline at all,
  while every other non-positive one gives `startTime`. The undefined `U64(2^64)` is
  reached exactly when `1000 · timeout ∈ [2^64 - 2^10, 2^64 + 2^11]`;
* among doubles, only `18446744073709552.0` lies there
  (`undefinedConversion_timeout_unique`);
* a longer timeout never gives an earlier deadline, unless the shorter one's product
  overflows to `-∞` (`getEndTimeFromTimeout_mono`).
-/

namespace Wavm.Runtime

/-! ## Rounding to an integer, ties to even -/

/-- `z` rounded to the nearest integer, ties to the even one. -/
def roundTiesEven (z : ℚ) : ℤ :=
  if (⌊z⌋ : ℚ) + 1 / 2 < z ∨ (z = ⌊z⌋ + 1 / 2 ∧ ⌊z⌋ % 2 = 1) then ⌊z⌋ + 1 else ⌊z⌋

/-- What `roundTiesEven` computes: an integer within `1/2` of `z`, and an odd one only
strictly within, so that a tie goes to the even side. -/
theorem roundTiesEven_spec (z : ℚ) :
    z - 1 / 2 ≤ roundTiesEven z ∧ (roundTiesEven z : ℚ) ≤ z + 1 / 2 ∧
      (roundTiesEven z % 2 = 1 →
        z - 1 / 2 < roundTiesEven z ∧ (roundTiesEven z : ℚ) < z + 1 / 2) := by
  have hf1 := Int.floor_le z
  have hf2 := Int.lt_floor_add_one z
  unfold roundTiesEven
  split_ifs with h
  · simp only [Int.cast_add, Int.cast_one]
    have hup : (⌊z⌋ : ℚ) + 1 / 2 ≤ z := h.elim le_of_lt fun h => h.1.ge
    refine ⟨by linarith only [hf2], by linarith only [hup], fun hodd => ⟨by linarith only [hf2], ?_⟩⟩
    -- an odd `⌊z⌋ + 1` is not reached at a tie
    rcases h with h | ⟨-, h⟩
    · linarith only [h]
    · omega
  · push_neg at h
    refine ⟨by linarith only [h.1], by linarith only [hf1],
      fun hodd => ⟨?_, by linarith only [hf1]⟩⟩
    exact lt_of_le_of_ne (by linarith only [h.1]) fun he => h.2 (by rw [← he]; ring) hodd

theorem le_roundTiesEven {z : ℚ} {n : ℤ} (h : (n : ℚ) ≤ z) : n ≤ roundTiesEven z := by
  have : (n : ℚ) < roundTiesEven z + 1 := by linarith [(roundTiesEven_spec z).1]
  exact Int.lt_add_one_iff.mp (by exact_mod_cast this)

theorem roundTiesEven_le {z : ℚ} {n : ℤ} (h : z ≤ n) : roundTiesEven z ≤ n := by
  have : (roundTiesEven z : ℚ) < n + 1 := by linarith [(roundTiesEven_spec z).2.1]
  exact Int.lt_add_one_iff.mp (by exact_mod_cast this)

/-- No integer is nearer to `z`: another integer is at least `1` from the rounding,
which is at most `1/2` from `z`. -/
theorem abs_roundTiesEven_sub_le (z : ℚ) (n : ℤ) :
    |(roundTiesEven z : ℚ) - z| ≤ |n - z| := by
  obtain ⟨h1, h2, -⟩ := roundTiesEven_spec z
  have hr : |(roundTiesEven z : ℚ) - z| ≤ 1 / 2 := abs_le.mpr ⟨by linarith, by linarith⟩
  rcases eq_or_ne n (roundTiesEven z) with rfl | hn
  · exact le_rfl
  have hd : (1 : ℚ) ≤ |(n : ℚ) - roundTiesEven z| := by
    exact_mod_cast Int.one_le_abs (sub_ne_zero.mpr hn)
  have := abs_sub_le (n : ℚ) z (roundTiesEven z)
  rw [abs_sub_comm z] at this
  linarith

/-- Past an even integer `n` exactly from `n - 1/2`: the tie rounds up to `n`. -/
theorem le_roundTiesEven_iff {z : ℚ} {n : ℤ} (hn : n % 2 = 0) :
    n ≤ roundTiesEven z ↔ (n : ℚ) - 1 / 2 ≤ z := by
  obtain ⟨h1, h2, htie⟩ := roundTiesEven_spec z
  constructor
  · intro h
    have : (n : ℚ) ≤ roundTiesEven z := Int.cast_le.mpr h
    linarith only [this, h2]
  · intro h
    by_contra hne
    -- below `n` within reach is only `n - 1`, odd, so not reached at a tie
    have hlt : n < roundTiesEven z + 2 := by
      exact_mod_cast (show (n : ℚ) < roundTiesEven z + 2 by linarith only [h, h1])
    have he : roundTiesEven z = n - 1 := by omega
    have hq : (roundTiesEven z : ℚ) = n - 1 := by rw [he, Int.cast_sub, Int.cast_one]
    linarith only [(htie (by omega)).1, hq, h]

/-- At most an even integer `n` exactly up to `n + 1/2`: the tie rounds down to `n`. -/
theorem roundTiesEven_le_iff {z : ℚ} {n : ℤ} (hn : n % 2 = 0) :
    roundTiesEven z ≤ n ↔ z ≤ (n : ℚ) + 1 / 2 := by
  obtain ⟨h1, h2, htie⟩ := roundTiesEven_spec z
  constructor
  · intro h
    have : (roundTiesEven z : ℚ) ≤ n := Int.cast_le.mpr h
    linarith only [this, h1]
  · intro h
    by_contra hne
    -- above `n` within reach is only `n + 1`, odd, so not reached at a tie
    have hlt : roundTiesEven z < n + 2 := by
      exact_mod_cast (show (roundTiesEven z : ℚ) < n + 2 by linarith only [h, h2])
    have he : roundTiesEven z = n + 1 := by omega
    have hq : (roundTiesEven z : ℚ) = n + 1 := by rw [he, Int.cast_add, Int.cast_one]
    linarith only [(htie (by omega)).2, hq, h]

/-- Rounding to an integer is monotone: two roundings a step apart in the wrong order
would both sit at `1/2` from one point, and one of them is odd. -/
theorem roundTiesEven_mono {z z' : ℚ} (h : z ≤ z') : roundTiesEven z ≤ roundTiesEven z' := by
  obtain ⟨h1, h2, htie⟩ := roundTiesEven_spec z
  obtain ⟨h1', h2', htie'⟩ := roundTiesEven_spec z'
  by_contra hlt
  have hlt' : roundTiesEven z < roundTiesEven z' + 2 := by
    exact_mod_cast (show (roundTiesEven z : ℚ) < roundTiesEven z' + 2 by
      linarith only [h, h2, h1'])
  have he : roundTiesEven z = roundTiesEven z' + 1 := by omega
  have hq : (roundTiesEven z : ℚ) = roundTiesEven z' + 1 := by
    rw [he, Int.cast_add, Int.cast_one]
  rcases Int.emod_two_eq_zero_or_one (roundTiesEven z) with hr | hr
  · linarith only [(htie' (by omega)).1, h, h2, hq]
  · linarith only [(htie hr).2, h, h1', hq]

/-! ## Rounding a magnitude to its quantum -/

/-- The weight of the last bit a double keeps at magnitude `y`: 53 significant bits,
and none below `2^-1074`. -/
def quantum (y : ℚ) : ℤ := max (Int.log 2 y - 52) (-1074)

/-- `y ≥ 0` rounded to the nearest multiple of its quantum, ties to even. -/
def roundMag (y : ℚ) : ℚ := roundTiesEven (y / 2 ^ quantum y) * 2 ^ quantum y

theorem two_zpow_add_nat (k : ℤ) (n : ℕ) : (2 : ℚ) ^ (k + n) = 2 ^ n * 2 ^ k := by
  rw [zpow_add₀ two_ne_zero, zpow_natCast, mul_comm]

/-- The binade of `y`. -/
theorem log_two_eq {y : ℚ} {k : ℤ} (h1 : 2 ^ k ≤ y) (h2 : y < 2 ^ (k + 1)) :
    Int.log 2 y = k := by
  have hy : 0 < y := (zpow_pos two_pos k).trans_le h1
  have a := (Int.zpow_le_iff_le_log (b := 2) one_lt_two hy).1 (by exact_mod_cast h1)
  have b := (Int.lt_zpow_iff_log_lt (b := 2) one_lt_two hy).1 (by exact_mod_cast h2)
  omega

theorem le_roundMag {y : ℚ} {n : ℤ} (h : n * 2 ^ quantum y ≤ y) :
    n * 2 ^ quantum y ≤ roundMag y := by
  have hQ : (0 : ℚ) < 2 ^ quantum y := zpow_pos two_pos _
  exact mul_le_mul_of_nonneg_right
    (Int.cast_le.mpr (le_roundTiesEven ((le_div_iff₀ hQ).mpr h))) hQ.le

theorem roundMag_le {y : ℚ} {n : ℤ} (h : y ≤ n * 2 ^ quantum y) :
    roundMag y ≤ n * 2 ^ quantum y := by
  have hQ : (0 : ℚ) < 2 ^ quantum y := zpow_pos two_pos _
  exact mul_le_mul_of_nonneg_right
    (Int.cast_le.mpr (roundTiesEven_le ((div_le_iff₀ hQ).mpr h))) hQ.le

theorem le_roundMag_iff {y : ℚ} {n : ℤ} (hn : n % 2 = 0) :
    n * 2 ^ quantum y ≤ roundMag y ↔ (n - 1 / 2) * 2 ^ quantum y ≤ y := by
  have hQ : (0 : ℚ) < 2 ^ quantum y := zpow_pos two_pos _
  rw [roundMag, mul_le_mul_right hQ, Int.cast_le, le_roundTiesEven_iff hn, le_div_iff₀ hQ]

theorem roundMag_le_iff {y : ℚ} {n : ℤ} (hn : n % 2 = 0) :
    roundMag y ≤ n * 2 ^ quantum y ↔ y ≤ (n + 1 / 2) * 2 ^ quantum y := by
  have hQ : (0 : ℚ) < 2 ^ quantum y := zpow_pos two_pos _
  rw [roundMag, mul_le_mul_right hQ, Int.cast_le, roundTiesEven_le_iff hn, div_le_iff₀ hQ]

/-- No multiple of the quantum is nearer to `y`. -/
theorem abs_roundMag_sub_le (y : ℚ) (n : ℤ) :
    |roundMag y - y| ≤ |n * 2 ^ quantum y - y| := by
  have hQ : (0 : ℚ) < 2 ^ quantum y := zpow_pos two_pos _
  have e : ∀ a : ℚ, a * 2 ^ quantum y - y = (a - y / 2 ^ quantum y) * 2 ^ quantum y :=
    fun a => by rw [sub_mul, div_mul_cancel₀ _ hQ.ne']
  rw [roundMag, e, e, abs_mul, abs_mul, abs_of_pos hQ]
  exact mul_le_mul_of_nonneg_right (abs_roundTiesEven_sub_le _ n) hQ.le

theorem roundMag_zero : roundMag 0 = 0 := by
  have : roundTiesEven 0 = 0 :=
    le_antisymm (roundTiesEven_le (n := 0) (by simp)) (le_roundTiesEven (n := 0) (by simp))
  simp [roundMag, this]

theorem roundMag_nonneg {y : ℚ} (hy : 0 ≤ y) : 0 ≤ roundMag y := by
  simpa using le_roundMag (y := y) (n := 0) (by simpa using hy)

/-- A power of two at or above the quantum is a multiple of it. -/
theorem two_zpow_eq_mul {j q : ℤ} (h : q ≤ j) :
    (2 : ℚ) ^ j = ((2 ^ (j - q).toNat : ℤ) : ℚ) * 2 ^ q := by
  rw [Int.cast_pow, Int.cast_ofNat, ← two_zpow_add_nat, Int.toNat_of_nonneg (by omega)]
  congr 1; omega

/-- Below a power of two, down to `2^-1074`, the rounding stays at or below it. -/
theorem roundMag_le_two_zpow {y : ℚ} {j : ℤ} (hj : -1074 ≤ j) (hy : y < 2 ^ j) :
    roundMag y ≤ 2 ^ j := by
  rcases le_or_lt y 0 with h0 | h0
  · have := roundMag_le (y := y) (n := 0) (by simpa using h0)
    have := zpow_pos (two_pos (α := ℚ)) j
    simp only [Int.cast_zero, zero_mul] at *
    linarith
  · have hk := (Int.lt_zpow_iff_log_lt (b := 2) one_lt_two h0).1 (by exact_mod_cast hy)
    have hq : quantum y ≤ j := by unfold quantum; omega
    rw [two_zpow_eq_mul hq] at hy ⊢
    exact roundMag_le hy.le

/-- Above a power of two, down to `2^-1074`, the rounding stays at or above it. -/
theorem two_zpow_le_roundMag {y : ℚ} {j : ℤ} (hj : -1074 ≤ j) (hy : 2 ^ j ≤ y) :
    2 ^ j ≤ roundMag y := by
  have hy0 : 0 < y := (zpow_pos two_pos j).trans_le hy
  have hk := (Int.zpow_le_iff_le_log (b := 2) one_lt_two hy0).1 (by exact_mod_cast hy)
  have hq : quantum y ≤ Int.log 2 y := by unfold quantum; omega
  have h2k : (2 : ℚ) ^ Int.log 2 y ≤ y := by
    exact_mod_cast Int.zpow_log_le_self (b := 2) one_lt_two hy0
  calc (2 : ℚ) ^ j ≤ 2 ^ Int.log 2 y := zpow_le_zpow_right₀ one_le_two hk
    _ ≤ roundMag y := by
      rw [two_zpow_eq_mul hq] at h2k ⊢
      exact le_roundMag h2k

/-- Rounding a magnitude is monotone: within one quantum as integer rounding is, and
across quantums because a power of two separates the two binades. -/
theorem roundMag_mono {y y' : ℚ} (hy : 0 ≤ y) (h : y ≤ y') : roundMag y ≤ roundMag y' := by
  rcases hy.eq_or_lt with rfl | hy0
  · rw [roundMag_zero]; exact roundMag_nonneg h
  have hy0' := hy0.trans_le h
  have hk : Int.log 2 y ≤ Int.log 2 y' := Int.log_mono_right hy0 h
  have hqq : quantum y ≤ quantum y' := max_le_max (by omega) le_rfl
  rcases hqq.eq_or_lt with hq | hq
  · have hQ : (0 : ℚ) < 2 ^ quantum y := zpow_pos two_pos _
    rw [roundMag, roundMag, ← hq]
    exact mul_le_mul_of_nonneg_right
      (Int.cast_le.mpr (roundTiesEven_mono ((div_le_div_iff_of_pos_right hQ).mpr h))) hQ.le
  · have hkk : Int.log 2 y < Int.log 2 y' := by unfold quantum at hq; omega
    have hk' : -1074 ≤ Int.log 2 y' := by unfold quantum at hq; omega
    have h1 : y < 2 ^ Int.log 2 y' := by
      exact_mod_cast (Int.lt_zpow_iff_log_lt (b := 2) one_lt_two hy0).2 hkk
    have h2 : (2 : ℚ) ^ Int.log 2 y' ≤ y' := by
      exact_mod_cast Int.zpow_log_le_self (b := 2) one_lt_two hy0'
    exact (roundMag_le_two_zpow hk' h1).trans (two_zpow_le_roundMag hk' h2)

/-- The rounding reaches `2^k` exactly from `2^k - 2^(k-54)`, half the quantum of the
binade below: the tie rounds up, to the even significand `2^53`. -/
theorem two_zpow_le_roundMag_iff {y : ℚ} {k : ℤ} (hk : -1021 ≤ k) :
    2 ^ k ≤ roundMag y ↔ 2 ^ k - 2 ^ (k - 54) ≤ y := by
  have hP : (0 : ℚ) < 2 ^ (k - 54) := zpow_pos two_pos _
  have ek : (2 : ℚ) ^ k = 2 ^ 54 * 2 ^ (k - 54) := by rw [← two_zpow_add_nat]; congr 1; omega
  have e1 : (2 : ℚ) ^ (k - 1) = 2 ^ 53 * 2 ^ (k - 54) := by
    rw [← two_zpow_add_nat]; congr 1; omega
  have e53 : (2 : ℚ) ^ (k - 53) = 2 * 2 ^ (k - 54) := by
    rw [← zpow_one_add₀ two_ne_zero]; congr 1; omega
  rcases lt_or_le y (2 ^ (k - 1)) with h1 | h1
  · have := roundMag_le_two_zpow (by omega) h1
    constructor <;> intro h <;> linarith
  rcases lt_or_le y (2 ^ k) with h2 | h2
  · -- the binade of `2^(k-1)`, whose quantum is `2^(k-53)`
    have hq : quantum y = k - 53 := by
      have := log_two_eq h1 (by rwa [sub_add_cancel]); unfold quantum; omega
    have := le_roundMag_iff (y := y) (n := 2 ^ 53) (by norm_num)
    rw [hq, e53] at this
    rw [ek]
    convert this using 2 <;> push_cast <;> ring
  · exact ⟨fun _ => by linarith, fun _ => two_zpow_le_roundMag (by omega) h2⟩

/-- The rounding stays at or below `2^k` exactly up to `2^k + 2^(k-53)`, half the
quantum of the binade of `2^k`: the tie rounds down, to the even significand `2^52`. -/
theorem roundMag_le_two_zpow_iff {y : ℚ} {k : ℤ} (hk : -1022 ≤ k) :
    roundMag y ≤ 2 ^ k ↔ y ≤ 2 ^ k + 2 ^ (k - 53) := by
  have hP : (0 : ℚ) < 2 ^ (k - 53) := zpow_pos two_pos _
  have ek : (2 : ℚ) ^ k = 2 ^ 53 * 2 ^ (k - 53) := by rw [← two_zpow_add_nat]; congr 1; omega
  have ek1 : (2 : ℚ) ^ (k + 1) = 2 ^ 54 * 2 ^ (k - 53) := by
    rw [← two_zpow_add_nat]; congr 1; omega
  have e52 : (2 : ℚ) ^ (k - 52) = 2 * 2 ^ (k - 53) := by
    rw [← zpow_one_add₀ two_ne_zero]; congr 1; omega
  rcases lt_or_le y (2 ^ k) with h1 | h1
  · have := roundMag_le_two_zpow (by omega) h1
    constructor <;> intro <;> linarith
  rcases lt_or_le y (2 ^ (k + 1)) with h2 | h2
  · -- the binade of `2^k`, whose quantum is `2^(k-52)`
    have hq : quantum y = k - 52 := by have := log_two_eq h1 h2; unfold quantum; omega
    have := roundMag_le_iff (y := y) (n := 2 ^ 52) (by norm_num)
    rw [hq, e52] at this
    rw [ek]
    convert this using 2 <;> push_cast <;> ring
  · have := two_zpow_le_roundMag (by omega) h2
    constructor <;> intro <;> linarith

theorem two_pow_64_le_roundMag_iff {y : ℚ} : 2 ^ 64 ≤ roundMag y ↔ 2 ^ 64 - 2 ^ 10 ≤ y := by
  have := two_zpow_le_roundMag_iff (y := y) (k := (64 : ℕ)) (by norm_num)
  rwa [show ((64 : ℕ) : ℤ) - 54 = (10 : ℕ) by norm_num, zpow_natCast, zpow_natCast] at this

theorem roundMag_le_two_pow_64_iff {y : ℚ} : roundMag y ≤ 2 ^ 64 ↔ y ≤ 2 ^ 64 + 2 ^ 11 := by
  have := roundMag_le_two_zpow_iff (y := y) (k := (64 : ℕ)) (by norm_num)
  rwa [show ((64 : ℕ) : ℤ) - 53 = (11 : ℕ) by norm_num, zpow_natCast, zpow_natCast] at this

/-- The rounding overflows exactly from `2^1024 - 2^970`. -/
theorem roundMag_overflow {y : ℚ} : 2 ^ 1024 ≤ roundMag y ↔ 2 ^ 1024 - 2 ^ 970 ≤ y := by
  have := two_zpow_le_roundMag_iff (y := y) (k := (1024 : ℕ)) (by norm_num)
  rwa [show ((1024 : ℕ) : ℤ) - 54 = (970 : ℕ) by norm_num, zpow_natCast, zpow_natCast] at this

/-! ## The rounding of a product -/

/-- The finite doubles: `m · 2^e` with `|m| < 2^53` and `e ≥ -1074`, of magnitude below
`2^1024`. -/
def IsDouble (x : ℚ) : Prop :=
  |x| < 2 ^ 1024 ∧ ∃ m e : ℤ, |m| < 2 ^ 53 ∧ -1074 ≤ e ∧ x = m * 2 ^ e

/-- The double a product of doubles gives, from its exact value `x` (binary64, round
to nearest, ties to even): the magnitude rounded to its quantum, `±∞` once that
reaches `2^1024`. -/
def roundF64 (x : ℚ) : F64 :=
  if 2 ^ 1024 ≤ roundMag |x| then .inf (decide (x < 0))
  else .finite (if x < 0 then -roundMag |x| else roundMag |x|)

/-- Line 103: `timeoutMicroseconds = timeout * 1000.0`. -/
def timeoutMicroseconds : F64 → F64
  | .nan => .nan
  | .inf negative => .inf negative
  | .finite x => roundF64 (x * 1000)

theorem roundF64_of_nonneg {x : ℚ} (hx : 0 ≤ x) :
    roundF64 x = if 2 ^ 1024 ≤ roundMag x then .inf false else .finite (roundMag x) := by
  simp [roundF64, abs_of_nonneg hx, not_lt.mpr hx]

theorem roundF64_of_neg {x : ℚ} (hx : x < 0) :
    roundF64 x = if 2 ^ 1024 ≤ roundMag (-x) then .inf true else .finite (-roundMag (-x)) := by
  simp [roundF64, abs_of_neg hx, hx]

theorem IsDouble.neg {d : ℚ} (h : IsDouble d) : IsDouble (-d) := by
  obtain ⟨hb, m, e, hm, he, rfl⟩ := h
  exact ⟨by rwa [abs_neg], -m, e, by rwa [abs_neg], he, by push_cast; ring⟩

/-- No double is nearer to `y ≥ 0` than its rounding. -/
theorem roundMag_nearest {y d : ℚ} (hy : 0 ≤ y) (hd : IsDouble d) :
    |roundMag y - y| ≤ |d - y| := by
  obtain ⟨-, m, e, hm, he, rfl⟩ := hd
  rcases hy.eq_or_lt with rfl | hy0
  · simp [roundMag_zero]
  rcases le_or_lt (quantum y) e with hqe | hqe
  · -- the double is a multiple of the quantum
    have : (m : ℚ) * 2 ^ e = ((m * 2 ^ (e - quantum y).toNat : ℤ) : ℚ) * 2 ^ quantum y := by
      rw [two_zpow_eq_mul hqe]; push_cast; ring
    rw [this]
    exact abs_roundMag_sub_le y _
  · -- a finer double lies below `2^k ≤ y`, and `2^k` is a multiple of the quantum
    have hq : quantum y = Int.log 2 y - 52 := by unfold quantum at hqe ⊢; omega
    have h2k : (2 : ℚ) ^ Int.log 2 y ≤ y := by
      exact_mod_cast Int.zpow_log_le_self (b := 2) one_lt_two hy0
    have hk : (2 : ℚ) ^ Int.log 2 y = ((2 ^ 52 : ℤ) : ℚ) * 2 ^ quantum y := by
      rw [Int.cast_pow, Int.cast_ofNat, ← two_zpow_add_nat, hq]; congr 1; omega
    have hm' : |(m : ℚ)| < 2 ^ 53 := by exact_mod_cast hm
    have hd : (m : ℚ) * 2 ^ e < 2 ^ Int.log 2 y :=
      calc (m : ℚ) * 2 ^ e ≤ |(m : ℚ)| * 2 ^ e :=
            mul_le_mul_of_nonneg_right (le_abs_self _) (zpow_pos two_pos _).le
        _ < 2 ^ 53 * 2 ^ e := mul_lt_mul_of_pos_right hm' (zpow_pos two_pos _)
        _ ≤ 2 ^ 53 * 2 ^ (Int.log 2 y - 53) :=
            mul_le_mul_of_nonneg_left (zpow_le_zpow_right₀ one_le_two (by omega)) (by norm_num)
        _ = 2 ^ Int.log 2 y := by rw [← two_zpow_add_nat]; congr 1; omega
    calc |roundMag y - y| ≤ |((2 ^ 52 : ℤ) : ℚ) * 2 ^ quantum y - y| := abs_roundMag_sub_le y _
      _ = y - 2 ^ Int.log 2 y := by rw [← hk, abs_of_nonpos (by linarith)]; ring
      _ ≤ |m * 2 ^ e - y| := by rw [abs_of_neg (by linarith)]; linarith

/-- The rounding of `y ≥ 0`, below `2^1024`, is a double. -/
theorem roundMag_isDouble {y : ℚ} (hy : 0 ≤ y) (h : roundMag y < 2 ^ 1024) :
    IsDouble (roundMag y) := by
  refine ⟨by rwa [abs_of_nonneg (roundMag_nonneg hy)], ?_⟩
  have hq : -1074 ≤ quantum y := le_max_right _ _
  have hQ : (0 : ℚ) < 2 ^ quantum y := zpow_pos two_pos _
  -- the significand is at most `2^53`
  have hz : y / 2 ^ quantum y ≤ ((2 ^ 53 : ℤ) : ℚ) := by
    rw [div_le_iff₀ hQ]
    rcases hy.eq_or_lt with rfl | hy0
    · exact mul_nonneg (by norm_num) hQ.le
    calc y ≤ 2 ^ (Int.log 2 y + 1) := (Int.lt_zpow_succ_log_self (b := 2) one_lt_two y).le
      _ ≤ 2 ^ (quantum y + (53 : ℕ)) := zpow_le_zpow_right₀ one_le_two (by unfold quantum; omega)
      _ = _ := by rw [two_zpow_add_nat]; push_cast; ring
  have hr0 : 0 ≤ roundTiesEven (y / 2 ^ quantum y) :=
    le_roundTiesEven (by push_cast; exact div_nonneg hy hQ.le)
  rcases (roundTiesEven_le hz).lt_or_eq with hlt | heq
  · exact ⟨_, _, by rwa [abs_of_nonneg hr0], hq, rfl⟩
  · refine ⟨2 ^ 52, quantum y + 1, by norm_num, by omega, ?_⟩
    rw [roundMag, heq, zpow_add_one₀ two_ne_zero]
    push_cast; ring

/-- Every finite result of `roundF64` is a double, and no double is nearer to `x`. -/
theorem roundF64_nearest {x r : ℚ} (h : roundF64 x = .finite r) :
    IsDouble r ∧ ∀ d, IsDouble d → |r - x| ≤ |d - x| := by
  rcases le_or_lt 0 x with hx | hx
  · rw [roundF64_of_nonneg hx] at h
    split_ifs at h with hov
    cases h
    exact ⟨roundMag_isDouble hx (not_le.mp hov), fun d hd => roundMag_nearest hx hd⟩
  · rw [roundF64_of_neg hx] at h
    split_ifs at h with hov
    cases h
    have hx' : 0 ≤ -x := neg_nonneg.mpr hx.le
    refine ⟨(roundMag_isDouble hx' (not_le.mp hov)).neg, fun d hd => ?_⟩
    have := roundMag_nearest hx' hd.neg
    rwa [show -roundMag (-x) - x = -(roundMag (-x) - -x) by ring, abs_neg,
      show d - x = -(-d - -x) by ring, abs_neg]

/-- A double is its own rounding. -/
theorem roundF64_of_isDouble {d : ℚ} (hd : IsDouble d) : roundF64 d = .finite d := by
  have hexact : ∀ {d : ℚ}, 0 ≤ d → IsDouble d → roundMag d = d := fun hd0 hd => by
    have := roundMag_nearest hd0 hd
    rw [sub_self, abs_zero] at this
    exact sub_eq_zero.mp (abs_nonpos_iff.mp this)
  rcases le_or_lt 0 d with h0 | h0
  · rw [roundF64_of_nonneg h0, hexact h0 hd, if_neg (not_le.mpr (abs_lt.mp hd.1).2)]
  · rw [roundF64_of_neg h0, hexact (neg_nonneg.mpr h0.le) hd.neg, neg_neg,
      if_neg (not_le.mpr (by linarith [(abs_lt.mp hd.1).1]))]

/-- A non-positive product that does not overflow rounds to a non-positive double. -/
theorem roundF64_of_nonpos {y : ℚ} (hy : y ≤ 0) (hov : -(2 ^ 1024 - 2 ^ 970) < y) :
    ∃ r, roundF64 y = .finite r ∧ r ≤ 0 := by
  rcases hy.lt_or_eq with hn | rfl
  · rw [roundF64_of_neg hn, if_neg fun h => by linarith [roundMag_overflow.mp h]]
    exact ⟨_, rfl, neg_nonpos.mpr (roundMag_nonneg (by linarith))⟩
  · rw [roundF64_of_nonneg le_rfl, roundMag_zero, if_neg (by norm_num)]
    exact ⟨0, rfl, le_rfl⟩

theorem roundMag_eq_two_pow_64 {y : ℚ} :
    roundMag y = 2 ^ 64 ↔ 2 ^ 64 - 2 ^ 10 ≤ y ∧ y ≤ 2 ^ 64 + 2 ^ 11 := by
  rw [le_antisymm_iff, roundMag_le_two_pow_64_iff, two_pow_64_le_roundMag_iff, and_comm]

/-- `roundF64` gives `2^64` exactly from `[2^64 - 2^10, 2^64 + 2^11]`. -/
theorem roundF64_eq_two_pow_64 {y : ℚ} :
    roundF64 y = .finite (2 ^ 64) ↔ 2 ^ 64 - 2 ^ 10 ≤ y ∧ y ≤ 2 ^ 64 + 2 ^ 11 := by
  rw [← roundMag_eq_two_pow_64]
  rcases le_or_lt 0 y with hy | hy
  · rw [roundF64_of_nonneg hy]
    split_ifs with hov
    · exact ⟨fun h => h.elim, fun h => by rw [h] at hov; norm_num at hov⟩
    · exact F64.finite.injEq _ _ ▸ Iff.rfl
  · -- a negative `y` gives `-∞` or a non-positive double
    have h1 := roundMag_nonneg (neg_nonneg.mpr hy.le)
    have h2 := roundMag_le (y := y) (n := 0) (by simpa using hy.le)
    simp only [Int.cast_zero, zero_mul] at h2
    have h64 : (0 : ℚ) < 2 ^ 64 := by norm_num
    rw [roundF64_of_neg hy]
    split_ifs
    · exact ⟨fun h => h.elim, fun h => by linarith⟩
    · simp only [F64.finite.injEq]
      constructor <;> intro h <;> linarith

/-! ## The decoding of a timeout in seconds -/

/-- The conversion at line 112 fails exactly on `2^64`, the one value the check of
line 110 lets through whose truncation does not fit. -/
theorem getEndTimeFromTimeout_eq_undefined_iff (startTime : Nat) (m : F64) :
    getEndTimeFromTimeout startTime m = .error .undefinedConversion ↔ m = .finite (2 ^ 64) := by
  cases m with
  | nan | inf => simp [getEndTimeFromTimeout]
  | finite r =>
    simp only [F64.finite.injEq]
    rcases lt_trichotomy r (2 ^ 64) with h | rfl | h
    · refine ⟨fun he => ?_, fun he => absurd he h.ne⟩
      rcases le_or_lt r 0 with h0 | h0
      · rw [getEndTimeFromTimeout_of_nonpos _ h0] at he; cases he
      · have hlt : ⌊r⌋₊ < 2 ^ 64 := (Nat.floor_lt h0.le).mpr (by exact_mod_cast h)
        simp only [getEndTimeFromTimeout, if_neg (not_le.mpr h0), natToF64_uint64Max_sub_one_cast,
          if_pos h.le, f64ToU64, if_pos hlt, bind, Except.bind] at he
        split_ifs at he
        cases he
    · have hf : ⌊(2 ^ 64 : ℚ)⌋₊ = 2 ^ 64 := by exact_mod_cast Nat.floor_natCast (2 ^ 64)
      simp only [getEndTimeFromTimeout, natToF64_uint64Max_sub_one_cast, f64ToU64, hf,
        lt_irrefl, if_false, le_refl, if_true, bind, Except.bind]
      norm_num
    · rw [getEndTimeFromTimeout_of_gt _ h]
      exact ⟨fun he => (by cases he), fun he => absurd he h.ne'⟩

/-- A decoded deadline lies between `startTime` and `UINT64_MAX`. -/
theorem getEndTimeFromTimeout_ok_bounds {startTime : Nat} (hs : startTime < 2 ^ 64) {m : F64}
    {e : Nat} (h : getEndTimeFromTimeout startTime m = .ok e) : startTime ≤ e ∧ e ≤ uint64Max := by
  have hmax : startTime ≤ uint64Max := by unfold uint64Max; omega
  cases m with
  | nan | inf => simp only [getEndTimeFromTimeout, Except.ok.injEq] at h; exact h ▸ ⟨hmax, le_rfl⟩
  | finite r =>
    rcases le_or_lt r 0 with h0 | h0
    · rw [getEndTimeFromTimeout_of_nonpos _ h0] at h; cases h; exact ⟨le_rfl, hmax⟩
    rcases lt_trichotomy r (2 ^ 64) with hr | rfl | hr
    · rw [getEndTimeFromTimeout_of_lt hs h0.le hr] at h
      split_ifs at h with hw
      cases h
      exact ⟨Nat.le_add_right _ _, by unfold uint64Max; omega⟩
    · rw [(getEndTimeFromTimeout_eq_undefined_iff _ _).mpr rfl] at h; cases h
    · rw [getEndTimeFromTimeout_of_gt _ hr] at h; cases h; exact ⟨hmax, le_rfl⟩

/-- Of two non-negative finite products that both decode, the larger has the later
deadline. -/
theorem getEndTimeFromTimeout_finite_mono {startTime : Nat} (hs : startTime < 2 ^ 64)
    {r r' : ℚ} (h0 : 0 ≤ r) (hr : r ≤ r') {e e' : Nat}
    (he : getEndTimeFromTimeout startTime (.finite r) = .ok e)
    (he' : getEndTimeFromTimeout startTime (.finite r') = .ok e') : e ≤ e' := by
  rcases lt_trichotomy r' (2 ^ 64) with h' | rfl | h'
  · rw [getEndTimeFromTimeout_of_lt hs h0 (hr.trans_lt h')] at he
    rw [getEndTimeFromTimeout_of_lt hs (h0.trans hr) h'] at he'
    split_ifs at he he'
    cases he; cases he'
    exact Nat.add_le_add_left (Nat.floor_mono hr) _
  · rw [(getEndTimeFromTimeout_eq_undefined_iff _ _).mpr rfl] at he'; cases he'
  · rw [getEndTimeFromTimeout_of_gt _ h'] at he'; cases he'
    exact (getEndTimeFromTimeout_ok_bounds hs he).2

/-- The decoding of lines 101–118 for every finite timeout `x` in seconds, by where
`1000 · x` lies. Below `-(2^1024 - 2^970)` the product overflows to `-∞`, which the
`isfinite` test of line 105 reads as no deadline at all; above, up to 0, the deadline
is `startTime`. Up to `2^64 - 2^10` it is `startTime` plus the truncation of the
double nearest the product, or the `errorUnless` fails if that sum wraps. On
`[2^64 - 2^10, 2^64 + 2^11]` the product is `2^64` and line 112 reaches the undefined
`U64(2^64)`. Above, there is no deadline. -/
theorem getEndTimeFromTimeout_seconds (startTime : Nat) (hs : startTime < 2 ^ 64) (x : ℚ) :
    (x * 1000 ≤ -(2 ^ 1024 - 2 ^ 970) →
      getEndTimeFromTimeout startTime (timeoutMicroseconds (.finite x)) = .ok uint64Max) ∧
    (-(2 ^ 1024 - 2 ^ 970) < x * 1000 → x ≤ 0 →
      getEndTimeFromTimeout startTime (timeoutMicroseconds (.finite x)) = .ok startTime) ∧
    (0 < x → x * 1000 < 2 ^ 64 - 2 ^ 10 → ∃ r, timeoutMicroseconds (.finite x) = .finite r ∧
      IsDouble r ∧ (∀ d, IsDouble d → |r - x * 1000| ≤ |d - x * 1000|) ∧
      getEndTimeFromTimeout startTime (timeoutMicroseconds (.finite x)) =
        if startTime + ⌊r⌋₊ < 2 ^ 64 then .ok (startTime + ⌊r⌋₊) else .error .errorUnless) ∧
    (2 ^ 64 - 2 ^ 10 ≤ x * 1000 → x * 1000 ≤ 2 ^ 64 + 2 ^ 11 →
      getEndTimeFromTimeout startTime (timeoutMicroseconds (.finite x)) =
        .error .undefinedConversion) ∧
    (2 ^ 64 + 2 ^ 11 < x * 1000 →
      getEndTimeFromTimeout startTime (timeoutMicroseconds (.finite x)) = .ok uint64Max) := by
  have hbig : (2 : ℚ) ^ 64 < 2 ^ 1024 := pow_lt_pow_right₀ one_lt_two (by norm_num)
  simp only [timeoutMicroseconds]
  refine ⟨fun h => ?_, fun h h0 => ?_, fun h0 h => ?_, fun h1 h2 => ?_, fun h => ?_⟩
  · -- the product overflows to `-∞`
    rw [roundF64_of_neg (by linarith), if_pos (roundMag_overflow.mpr (by linarith))]
    rfl
  · -- a non-positive double
    obtain ⟨r, hr, hr0⟩ := roundF64_of_nonpos (by linarith) h
    rw [hr]
    exact getEndTimeFromTimeout_of_nonpos _ hr0
  · -- the nearest double, below `2^64`
    have hy : 0 ≤ x * 1000 := by linarith
    have hlt : roundMag (x * 1000) < 2 ^ 64 :=
      not_le.mp fun h' => by linarith [two_pow_64_le_roundMag_iff.mp h']
    have hfin : roundF64 (x * 1000) = .finite (roundMag (x * 1000)) := by
      rw [roundF64_of_nonneg hy, if_neg (by linarith)]
    rw [hfin]
    exact ⟨_, rfl, (roundF64_nearest hfin).1, (roundF64_nearest hfin).2,
      getEndTimeFromTimeout_of_lt hs (roundMag_nonneg hy) hlt⟩
  · exact (getEndTimeFromTimeout_eq_undefined_iff _ _).mpr (roundF64_eq_two_pow_64.mpr ⟨h1, h2⟩)
  · -- past `2^64`, or `+∞`
    have hy : 0 ≤ x * 1000 := by linarith [(by norm_num : (0 : ℚ) ≤ 2 ^ 64 + 2 ^ 11)]
    have hgt : 2 ^ 64 < roundMag (x * 1000) :=
      not_le.mp fun h' => by linarith [roundMag_le_two_pow_64_iff.mp h']
    rw [roundF64_of_nonneg hy]
    split_ifs
    · rfl
    · exact getEndTimeFromTimeout_of_gt _ hgt

theorem getEndTimeFromTimeout_seconds_overflow : (5 : ℕ) < 2 ^ 64 ∧
    getEndTimeFromTimeout 5 (timeoutMicroseconds (.finite (-2 ^ 1021))) = .ok uint64Max :=
  ⟨by norm_num, (getEndTimeFromTimeout_seconds 5 (by norm_num) _).1 (by norm_num)⟩

/-- Among doubles, `18446744073709552.0` is the one timeout in seconds that reaches
the undefined `U64(2^64)`. -/
theorem undefinedConversion_timeout_unique (startTime : Nat) {x : ℚ} (hx : IsDouble x) :
    getEndTimeFromTimeout startTime (timeoutMicroseconds (.finite x)) =
      .error .undefinedConversion ↔ x = 18446744073709552 := by
  rw [getEndTimeFromTimeout_eq_undefined_iff, timeoutMicroseconds, roundF64_eq_two_pow_64]
  refine ⟨fun ⟨h1, h2⟩ => ?_, by rintro rfl; norm_num⟩
  obtain ⟨-, m, e, hm, -, rfl⟩ := hx
  -- `m · 2^e ≥ 2^54` with `|m| < 2^53` needs `e ≥ 2`, so the double is a multiple of 4
  have he : 2 ≤ e := by
    by_contra he
    have hm' : |(m : ℚ)| < 2 ^ 53 := by exact_mod_cast hm
    have hpos : (0 : ℚ) < 2 ^ e := zpow_pos two_pos _
    have : (m : ℚ) * 2 ^ e < 2 ^ 54 :=
      calc (m : ℚ) * 2 ^ e ≤ |(m : ℚ)| * 2 ^ e := mul_le_mul_of_nonneg_right (le_abs_self _) hpos.le
        _ < 2 ^ 53 * 2 ^ e := mul_lt_mul_of_pos_right hm' hpos
        _ ≤ 2 ^ 53 * 2 ^ (1 : ℤ) :=
          mul_le_mul_of_nonneg_left (zpow_le_zpow_right₀ one_le_two (by omega)) (by norm_num)
        _ = 2 ^ 54 := by norm_num
    linarith
  have h4 : (m : ℚ) * 2 ^ e = ((m * 2 ^ (e - 2).toNat : ℤ) : ℚ) * 4 := by
    rw [two_zpow_eq_mul he]; push_cast; ring
  rw [h4] at h1 h2 ⊢
  generalize m * 2 ^ (e - 2).toNat = j at h1 h2 ⊢
  have h1' : (18446744073709550592 : ℤ) ≤ j * 4000 := by
    have : ((18446744073709550592 : ℤ) : ℚ) ≤ ((j * 4000 : ℤ) : ℚ) := by push_cast; linarith
    exact_mod_cast this
  have h2' : j * 4000 ≤ (18446744073709553664 : ℤ) := by
    have : ((j * 4000 : ℤ) : ℚ) ≤ ((18446744073709553664 : ℤ) : ℚ) := by push_cast; linarith
    exact_mod_cast this
  have : j = 4611686018427388 := by omega
  rw [this]; norm_num

theorem undefinedConversion_timeout_unique_example :
    IsDouble 18446744073709552 ∧
      getEndTimeFromTimeout 0 (timeoutMicroseconds (.finite 18446744073709552)) =
        .error .undefinedConversion := by
  have hd : IsDouble 18446744073709552 :=
    ⟨by norm_num, 4611686018427388, 2, by norm_num, by norm_num, by norm_num⟩
  exact ⟨hd, (undefinedConversion_timeout_unique 0 hd).mpr rfl⟩

/-- A longer timeout never gives an earlier deadline, unless the shorter one's product
overflows to `-∞`: of two timeouts in seconds that both decode, the longer has the
later deadline. -/
theorem getEndTimeFromTimeout_mono {startTime : Nat} (hs : startTime < 2 ^ 64) {x x' : ℚ}
    (hx : -(2 ^ 1024 - 2 ^ 970) < x * 1000) (hxx : x ≤ x') {e e' : Nat}
    (he : getEndTimeFromTimeout startTime (timeoutMicroseconds (.finite x)) = .ok e)
    (he' : getEndTimeFromTimeout startTime (timeoutMicroseconds (.finite x')) = .ok e') :
    e ≤ e' := by
  simp only [timeoutMicroseconds] at he he'
  rcases le_or_lt x 0 with h0 | h0
  · -- the shorter timeout gives `startTime`, below every deadline
    obtain ⟨r, hr, hr0⟩ := roundF64_of_nonpos (by linarith) hx
    rw [hr, getEndTimeFromTimeout_of_nonpos _ hr0] at he
    cases he
    exact (getEndTimeFromTimeout_ok_bounds hs he').1
  have hy : 0 ≤ x * 1000 := by linarith
  have hyy : x * 1000 ≤ x' * 1000 := by linarith
  rw [roundF64_of_nonneg hy] at he
  rw [roundF64_of_nonneg (hy.trans hyy)] at he'
  split_ifs at he' with hov'
  · -- the longer one overflows to `+∞`: no deadline
    cases he'
    exact (getEndTimeFromTimeout_ok_bounds hs he).2
  · split_ifs at he with hov
    · exact absurd (hov.trans (roundMag_mono hy hyy)) hov'
    · exact getEndTimeFromTimeout_finite_mono hs (roundMag_nonneg hy) (roundMag_mono hy hyy) he he'

theorem getEndTimeFromTimeout_mono_one_two :
    getEndTimeFromTimeout 0 (timeoutMicroseconds (.finite 1)) = .ok 1000 ∧
      getEndTimeFromTimeout 0 (timeoutMicroseconds (.finite 2)) = .ok 2000 ∧ 1000 ≤ 2000 := by
  have hdec : ∀ k : ℕ, k < 2 ^ 53 →
      getEndTimeFromTimeout 0 (roundF64 (k : ℚ)) = .ok k := fun k hk => by
    have hk' : (k : ℚ) < 2 ^ 53 := by exact_mod_cast hk
    have hd : IsDouble (k : ℚ) :=
      ⟨by rw [abs_of_nonneg (Nat.cast_nonneg k)]
          exact hk'.trans_le (pow_le_pow_right₀ one_le_two (by norm_num)),
        k, 0, by rw [abs_of_nonneg (Nat.cast_nonneg k)]; exact_mod_cast hk, by norm_num,
        by simp⟩
    rw [roundF64_of_isDouble hd, getEndTimeFromTimeout_of_lt (by norm_num) (Nat.cast_nonneg k)
      (by exact_mod_cast hk.trans (by norm_num)), Nat.floor_natCast, zero_add,
      if_pos (hk.trans (by norm_num))]
  have h1 := hdec 1000 (by norm_num)
  have h2 := hdec 2000 (by norm_num)
  simp only [Nat.cast_ofNat] at h1 h2
  rw [show (1000 : ℚ) = 1 * 1000 by norm_num] at h1
  rw [show (2000 : ℚ) = 2 * 1000 by norm_num] at h2
  exact ⟨h1, h2, getEndTimeFromTimeout_mono (by norm_num) (by norm_num) (by norm_num) h1 h2⟩

end Wavm.Runtime
