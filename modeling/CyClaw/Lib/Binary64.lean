/-
The floats of Python, which are those of IEEE 754 in 64 bits.

`ofRat` is the float next to a rational number, and of two as near the one whose last bit is even.
It is an infinity just from halfway between the greatest float and `2 ^ 1024` on (`isFinite_ofRat`),
and there a conversion from a whole number raises OverflowError (`ofInt_returns`).  The result of an
operation on floats never raises: it is an infinity, or not a number.  Of the two zeros there is one.
-/
import CyClaw.Lib.PyValue
import Mathlib.Data.Int.Log
import Mathlib.Tactic.Linarith

namespace PyFloat

/-- The whole number next to `q`, the even one halfway between two. -/
def roundEven (q : ℚ) : ℤ :=
  if q - ⌊q⌋ < 1 / 2 then ⌊q⌋
  else if 1 / 2 < q - ⌊q⌋ then ⌊q⌋ + 1
  else if ⌊q⌋ % 2 = 0 then ⌊q⌋
  else ⌊q⌋ + 1

/-- The last bit of the floats about `q` stands for `2 ^ exponent q`. -/
def exponent (q : ℚ) : ℤ := max (Int.log 2 q - 52) (-1074)

/-- The size of the float next to a number of this size, if there is no greatest one. -/
def magnitude (q : ℚ) : ℚ := roundEven (q / 2 ^ exponent q) * 2 ^ exponent q

def ofRat (q : ℚ) : PyFloat :=
  if 2 ^ 1024 ≤ magnitude |q| then .inf (decide (q < 0))
  else .num (if q < 0 then -magnitude |q| else magnitude |q|)

def isFinite : PyFloat → Bool
  | num _ => true
  | _ => false

/-! ### Operations -/

def neg : PyFloat → PyFloat
  | num q => .num (-q)
  | inf negative => .inf !negative
  | nan => .nan

def add : PyFloat → PyFloat → PyFloat
  | num p, num q => ofRat (p + q)
  | num _, inf negative => .inf negative
  | inf negative, num _ => .inf negative
  | inf n, inf m => if n = m then .inf n else .nan
  | _, _ => .nan

def sub (x y : PyFloat) : PyFloat := x.add y.neg

/-- The product with a number. -/
def scale (x : PyFloat) (q : ℚ) : PyFloat :=
  match x with
  | num p => ofRat (p * q)
  | inf negative => if q = 0 then .nan else .inf (negative != decide (q < 0))
  | nan => .nan

def mul : PyFloat → PyFloat → PyFloat
  | x, num q => x.scale q
  | num p, y => y.scale p
  | inf n, inf m => .inf (n != m)
  | _, _ => .nan

/-- The quotient by a number that is not zero. -/
def quotient (x : PyFloat) (q : ℚ) : PyFloat :=
  match x with
  | num p => ofRat (p / q)
  | inf negative => .inf (negative != decide (q < 0))
  | nan => .nan

/-- `float(n)` -/
def ofInt (n : ℤ) : Except PyError PyFloat :=
  if (ofRat n).isFinite then .ok (ofRat n) else .error .overflowError

/-- `n / d`, of whole numbers. -/
def trueDiv (n d : ℤ) : Except PyError PyFloat :=
  if (ofRat (n / d)).isFinite then .ok (ofRat (n / d)) else .error .overflowError

/-! ### The greatest float -/

theorem roundEven_le (q : ℚ) : roundEven q ≤ ⌊q⌋ + 1 := by
  unfold roundEven
  split_ifs <;> omega

theorem le_roundEven (q : ℚ) : ⌊q⌋ ≤ roundEven q := by
  unfold roundEven
  split_ifs <;> omega

/-- An even number is next from the half before it on. -/
theorem le_roundEven_iff {q : ℚ} {n : ℤ} (heven : n % 2 = 0) : n ≤ roundEven q ↔ (n : ℚ) - 1 / 2 ≤ q := by
  have hfloor := Int.floor_le q
  have hnext := Int.lt_floor_add_one q
  rcases lt_trichotomy (⌊q⌋ + 1) n with hlt | heq | hgt
  · -- Both fail: the number lies beyond the next one.
    have hcast : (⌊q⌋ : ℚ) + 2 ≤ n := by exact_mod_cast (by omega : ⌊q⌋ + 2 ≤ n)
    have hround := roundEven_le q
    constructor
    · intro h
      omega
    · intro h
      linarith
  · have hcast : (⌊q⌋ : ℚ) + 1 = n := by exact_mod_cast heq
    have hodd : ¬ ⌊q⌋ % 2 = 0 := by omega
    unfold roundEven
    rw [if_neg hodd]
    split_ifs with hlow hhigh
    · exact ⟨fun h => absurd h (by omega), fun h => absurd h (by linarith)⟩
    · exact ⟨fun _ => by linarith, fun _ => heq.ge⟩
    · exact ⟨fun _ => by linarith, fun _ => heq.ge⟩
  · have hcast : (n : ℚ) ≤ ⌊q⌋ := by exact_mod_cast (by omega : n ≤ ⌊q⌋)
    have hround := le_roundEven q
    exact ⟨fun _ => by linarith, fun _ => by omega⟩

theorem lt_two_zpow (q : ℚ) : q < 2 ^ (exponent q + 53) := by
  have hlt : q < 2 ^ (Int.log 2 q + 1) := by exact_mod_cast Int.lt_zpow_succ_log_self one_lt_two q
  refine hlt.trans_le (zpow_le_zpow_right₀ one_le_two ?_)
  rw [exponent]
  omega

theorem two_zpow_le {q : ℚ} (h : 0 < q) (hmin : -1074 < exponent q) : 2 ^ (exponent q + 52) ≤ q := by
  have hle : (2 : ℚ) ^ Int.log 2 q ≤ q := by exact_mod_cast Int.zpow_log_le_self one_lt_two h
  have hlog : exponent q + 52 = Int.log 2 q := by
    rw [exponent] at hmin ⊢
    omega
  rwa [hlog]

/-- The least number that is rounded beyond every float. -/
theorem le_magnitude_iff {q : ℚ} (h : 0 ≤ q) : 2 ^ 1024 ≤ magnitude q ↔ 2 ^ 1024 - 2 ^ 970 ≤ q := by
  -- Only how the great powers compare matters.
  obtain ⟨u, h970⟩ : ∃ u : ℚ, 2 ^ 970 = u := ⟨_, rfl⟩
  have hpositive : 0 < u := by
    rw [← h970]
    exact pow_pos two_pos 970
  have h1024 : (2 : ℚ) ^ 1024 = 2 ^ 54 * u := by rw [← h970, ← pow_add]
  have h1023 : (2 : ℚ) ^ (1023 : ℤ) = 2 ^ 53 * u := by rw [← h970, zpow_ofNat, ← pow_add]
  have h971 : (2 : ℚ) ^ (971 : ℤ) = 2 * u := by rw [← h970, zpow_ofNat, ← pow_succ']
  rw [h1024, h970]
  rcases h.eq_or_lt with rfl | hpos
  · have hzero : magnitude 0 = 0 := by
      rw [magnitude, zero_div]
      have hround : roundEven 0 = 0 := by decide +kernel
      rw [hround, Int.cast_zero, zero_mul]
    rw [hzero]
    exact ⟨fun h => absurd h (by linarith only [hpositive]), fun h => absurd h (by linarith only [hpositive])⟩
  · have hunit : (0 : ℚ) < 2 ^ exponent q := zpow_pos two_pos _
    rcases lt_trichotomy (exponent q) 971 with hlt | heq | hgt
    · have hsmall : (2 : ℚ) ^ (exponent q + 53) ≤ 2 ^ (1023 : ℤ) := zpow_le_zpow_right₀ one_le_two (by omega)
      have hq := lt_two_zpow q
      have hround : roundEven (q / 2 ^ exponent q) ≤ 2 ^ 53 := by
        have hfloor : ⌊q / 2 ^ exponent q⌋ < 2 ^ 53 := by
          rw [Int.floor_lt, div_lt_iff₀ hunit]
          refine hq.trans_eq ?_
          rw [zpow_add₀ two_ne_zero, mul_comm]
          norm_num
        have hle := roundEven_le (q / 2 ^ exponent q)
        omega
      have hmagnitude : magnitude q ≤ 2 ^ (1023 : ℤ) := by
        calc magnitude q ≤ 2 ^ 53 * 2 ^ exponent q :=
              mul_le_mul_of_nonneg_right (by exact_mod_cast hround) hunit.le
          _ = 2 ^ (exponent q + 53) := by
              rw [zpow_add₀ two_ne_zero, mul_comm]
              norm_num
          _ ≤ 2 ^ (1023 : ℤ) := hsmall
      rw [h1023] at hsmall hmagnitude
      exact ⟨fun h => absurd h (by linarith only [hmagnitude, hpositive]),
        fun h => absurd h (by linarith only [hq, hsmall, hpositive])⟩
    · have hlimit : 2 ^ 54 * u = (2 ^ 53 : ℤ) * 2 ^ (971 : ℤ) := by
        rw [h971]
        norm_num
        ring
      have hhalf : (((2 ^ 53 : ℤ) : ℚ) - 1 / 2) * (2 * u) = 2 ^ 54 * u - u := by
        norm_num
        ring
      rw [magnitude, heq, hlimit, mul_le_mul_iff_left₀ (zpow_pos two_pos _), Int.cast_le,
        le_roundEven_iff (by decide), le_div_iff₀ (zpow_pos two_pos _), ← hlimit, h971, hhalf]
    · have hlarge : 2 ^ 54 * u ≤ 2 ^ (exponent q + 52) := by
        rw [← h1024, ← zpow_natCast]
        exact zpow_le_zpow_right₀ one_le_two (by omega)
      have hq := two_zpow_le hpos (by omega)
      have hround : (2 ^ 52 : ℤ) ≤ roundEven (q / 2 ^ exponent q) := by
        refine le_trans ?_ (le_roundEven _)
        rw [Int.le_floor, le_div_iff₀ hunit]
        refine le_trans (le_of_eq ?_) hq
        rw [zpow_add₀ two_ne_zero, mul_comm]
        norm_num
      have hmagnitude : 2 ^ 54 * u ≤ magnitude q := by
        calc 2 ^ 54 * u ≤ 2 ^ (exponent q + 52) := hlarge
          _ = 2 ^ 52 * 2 ^ exponent q := by
              rw [zpow_add₀ two_ne_zero, mul_comm]
              norm_num
          _ ≤ magnitude q := mul_le_mul_of_nonneg_right (by exact_mod_cast hround) hunit.le
      exact ⟨fun _ => by linarith only [hq, hlarge, hpositive], fun _ => hmagnitude⟩

/-- **A rounding is finite** below halfway from the greatest float to the next power of two. -/
theorem isFinite_ofRat {q : ℚ} : (ofRat q).isFinite = true ↔ |q| < 2 ^ 1024 - 2 ^ 970 := by
  have hiff := le_magnitude_iff (abs_nonneg q)
  unfold ofRat
  by_cases hlarge : 2 ^ 1024 ≤ magnitude |q|
  · rw [if_pos hlarge]
    exact ⟨fun h => (by cases h), fun h => absurd (hiff.mp hlarge) (not_le.mpr h)⟩
  · rw [if_neg hlarge]
    exact ⟨fun _ => not_le.mp fun h => hlarge (hiff.mpr h), fun _ => rfl⟩

theorem cast_two_pow_sub {a b : ℕ} (h : a ≤ b) : ((2 ^ b - 2 ^ a : ℕ) : ℚ) = 2 ^ b - 2 ^ a := by
  rw [Nat.cast_sub (Nat.pow_le_pow_right two_pos h), Nat.cast_pow, Nat.cast_pow, Nat.cast_ofNat]

theorem cast_floatLimit : (PyValue.floatLimit : ℚ) = 2 ^ 1024 - 2 ^ 970 := cast_two_pow_sub (by decide)

theorem trueDiv_returns {n : ℤ} {d : ℕ} (hd : 0 < d) :
    (∃ x, trueDiv n d = .ok x) ↔ n.natAbs < PyValue.floatLimit * d := by
  have hcast : |(n / (d : ℤ) : ℚ)| < 2 ^ 1024 - 2 ^ 970 ↔ n.natAbs < PyValue.floatLimit * d := by
    have hpos : (0 : ℚ) < d := by exact_mod_cast hd
    rw [← cast_floatLimit, Int.cast_natCast, abs_div, abs_of_pos hpos, div_lt_iff₀ hpos, ← Int.cast_abs,
      Int.abs_eq_natAbs, Int.cast_natCast, ← Nat.cast_mul, Nat.cast_lt]
  rw [← hcast, ← isFinite_ofRat, trueDiv]
  split_ifs with hfinite
  · exact ⟨fun _ => hfinite, fun _ => ⟨_, rfl⟩⟩
  · refine ⟨?_, fun h => absurd h hfinite⟩
    rintro ⟨x, hx⟩
    cases hx

theorem ofInt_eq (n : ℤ) : ofInt n = trueDiv n (1 : ℕ) := by
  rw [ofInt, trueDiv, Nat.cast_one, Int.cast_one, div_one]

theorem ofInt_returns {n : ℤ} : (∃ x, ofInt n = .ok x) ↔ n.natAbs < PyValue.floatLimit := by
  rw [ofInt_eq, trueDiv_returns one_pos, mul_one]

end PyFloat
