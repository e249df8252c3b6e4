import Mathlib
import Shading.Instruction
import Shading.Single

/- Integers as floats. A float has 24 significant bits, so an integer that takes more is
   rounded: to the nearest that takes no more, and halfway between two to the even one
   (`nearest`). What is passed to a float is just that (`isInteger_ofInt`), and floats that are
   integers compare as these do (`Shows.compare_eq`). The arithmetic is that of the logical model
   of floats: shifting out bits and keeping track of what was lost is a quotient that is
   rounded (`shifted_rounded`), and a carry into a new bit is shifted out again without
   loss (`shift_carry`). -/
namespace Shading

/-- Whether two integers stand in the relation. -/
def Comparison.testInt : Comparison → Int → Int → Bool
  | .lt, a, b => a < b
  | .le, a, b => a ≤ b
  | .gt, a, b => b < a
  | .ge, a, b => b ≤ a
  | .eq, a, b => a == b
  | .ne, a, b => a != b

namespace Single

/-! ## Rounding integers -/

/-- The quotient by a power of two, rounded to the nearest and halfway to the even one. -/
def quotient (n k : Nat) : Nat :=
  if 2 * (n % 2 ^ k) < 2 ^ k ∨ 2 * (n % 2 ^ k) = 2 ^ k ∧ n / 2 ^ k % 2 = 0 then n / 2 ^ k
  else n / 2 ^ k + 1

/-- The nearest number of no more than 24 significant bits. -/
def shorten (n : Nat) : Nat := quotient n (n.log2 - 23) * 2 ^ (n.log2 - 23)

/-- The nearest integer that a float holds. -/
def nearest (i : Int) : Int := i.sign * shorten i.natAbs

theorem div_le_quotient (n k : Nat) : n / 2 ^ k ≤ quotient n k := by
  unfold quotient
  split <;> omega

theorem quotient_le (n k : Nat) : quotient n k ≤ n / 2 ^ k + 1 := by
  unfold quotient
  split <;> omega

theorem quotient_mul_pow (n k : Nat) : quotient (n * 2 ^ k) k = n := by
  have hpos := Nat.two_pow_pos k
  rw [quotient, Nat.mul_mod_left, if_pos (.inl hpos), Nat.mul_div_cancel _ hpos]

theorem quotient_zero (n : Nat) : quotient n 0 = n := by
  have h := quotient_mul_pow n 0
  rwa [Nat.pow_zero, Nat.mul_one] at h

theorem quotient_mono {a b : Nat} (h : a ≤ b) (k : Nat) : quotient a k ≤ quotient b k := by
  rcases Nat.lt_or_eq_of_le (Nat.div_le_div_right (c := 2 ^ k) h) with hlt | heq
  · exact Nat.le_trans (quotient_le a k) (Nat.le_trans hlt (div_le_quotient b k))
  · -- the same quotient, and a remainder that is no less
    have ha := Nat.div_add_mod a (2 ^ k)
    have hb := Nat.div_add_mod b (2 ^ k)
    rw [heq] at ha
    unfold quotient
    rw [heq]
    split <;> split <;> omega

/-- The 24 significant bits that stand for a number. -/
def significand (n : Nat) : Nat := quotient (n * 2 ^ (23 - n.log2)) (n.log2 - 23)

theorem significand_mul (n : Nat) : significand n * 2 ^ n.log2 = shorten n * 2 ^ 23 := by
  have hsplit : ∀ {a b : Nat}, a ≤ b → 2 ^ b = 2 ^ (b - a) * 2 ^ a := by
    intro a b h
    rw [← Nat.pow_add, Nat.sub_add_cancel h]
  rcases Nat.le_total n.log2 23 with h | h
  · rw [significand, shorten, Nat.sub_eq_zero_of_le h, quotient_zero, quotient_zero, Nat.pow_zero,
      Nat.mul_one, Nat.mul_assoc, ← hsplit h]
  · rw [significand, shorten, Nat.sub_eq_zero_of_le h, Nat.pow_zero, Nat.mul_one, Nat.mul_assoc,
      ← hsplit h]

theorem significand_bounds {n : Nat} (hn : n ≠ 0) :
    2 ^ 23 ≤ significand n ∧ significand n ≤ 2 ^ 24 := by
  obtain ⟨hlow, hhigh⟩ := (Nat.log2_eq_iff hn).1 rfl
  have hpow : 2 ^ 23 * 2 ^ (n.log2 - 23) = 2 ^ n.log2 * 2 ^ (23 - n.log2) := by
    rw [← Nat.pow_add, ← Nat.pow_add]
    congr 1
    omega
  have hge : 2 ^ 23 ≤ n * 2 ^ (23 - n.log2) / 2 ^ (n.log2 - 23) := by
    rw [Nat.le_div_iff_mul_le (Nat.two_pow_pos _), hpow]
    exact Nat.mul_le_mul_right _ hlow
  have hlt : n * 2 ^ (23 - n.log2) / 2 ^ (n.log2 - 23) < 2 ^ 24 := by
    rw [Nat.div_lt_iff_lt_mul (Nat.two_pow_pos _), Nat.pow_succ', Nat.mul_assoc, hpow,
      ← Nat.mul_assoc, ← Nat.pow_succ']
    exact Nat.mul_lt_mul_of_pos_right hhigh (Nat.two_pow_pos _)
  exact ⟨Nat.le_trans hge (div_le_quotient _ _), Nat.le_trans (quotient_le _ _) hlt⟩

theorem shorten_bounds {n : Nat} (hn : n ≠ 0) :
    2 ^ n.log2 ≤ shorten n ∧ shorten n ≤ 2 ^ (n.log2 + 1) := by
  obtain ⟨hlow, hhigh⟩ := significand_bounds hn
  have hmul := significand_mul n
  have hlow' := Nat.mul_le_mul_right (2 ^ n.log2) hlow
  have hhigh' := Nat.mul_le_mul_right (2 ^ n.log2) hhigh
  rw [Nat.pow_succ']
  omega

/-- A number that takes no more than 24 bits is not rounded. -/
theorem shorten_eq_self {n : Nat} (h : n ≤ 2 ^ 24) : shorten n = n := by
  rcases Nat.lt_or_eq_of_le h with hlt | rfl
  · have hlog : n.log2 - 23 = 0 := by
      rcases Nat.eq_zero_or_pos n with rfl | hpos
      · rfl
      · exact Nat.sub_eq_zero_of_le (Nat.le_of_lt_succ ((Nat.log2_lt (Nat.ne_of_gt hpos)).2 hlt))
    rw [shorten, hlog, quotient_zero, Nat.pow_zero, Nat.mul_one]
  · rw [shorten, Nat.log2_two_pow]
    rfl

theorem shorten_mono {a b : Nat} (h : a ≤ b) : shorten a ≤ shorten b := by
  rcases Nat.eq_zero_or_pos a with rfl | ha
  · exact Nat.zero_le _
  have hb := Nat.lt_of_lt_of_le ha h
  have hlog : a.log2 ≤ b.log2 :=
    (Nat.le_log2 (Nat.ne_of_gt hb)).2 (Nat.le_trans (Nat.log2_self_le (Nat.ne_of_gt ha)) h)
  rcases Nat.lt_or_eq_of_le hlog with hlt | heq
  · -- a power of two lies between
    calc shorten a
      _ ≤ 2 ^ (a.log2 + 1) := (shorten_bounds (Nat.ne_of_gt ha)).2
      _ ≤ 2 ^ b.log2 := Nat.pow_le_pow_right (by decide) hlt
      _ ≤ shorten b := (shorten_bounds (Nat.ne_of_gt hb)).1
  · rw [shorten, shorten, heq]
    exact Nat.mul_le_mul_right _ (quotient_mono h _)

theorem nearest_eq_self {i : Int} (h : i.natAbs ≤ 2 ^ 24) : nearest i = i := by
  rw [nearest, shorten_eq_self h, Int.sign_mul_natAbs]

theorem nearest_natCast (n : Nat) : nearest n = shorten n := by
  rcases Nat.eq_zero_or_pos n with rfl | hn
  · rfl
  · rw [nearest, Int.sign_eq_one_of_pos (Int.natCast_pos.2 hn), Int.one_mul, Int.natAbs_natCast]

theorem nearest_neg (i : Int) : nearest (-i) = -nearest i := by
  rw [nearest, nearest, Int.sign_neg, Int.natAbs_neg, Int.neg_mul]

/-- Rounding keeps the order, but what was apart may fall together. -/
theorem nearest_mono {a b : Int} (h : a ≤ b) : nearest a ≤ nearest b := by
  obtain ⟨m, rfl | rfl⟩ := a.eq_nat_or_neg <;> obtain ⟨n, rfl | rfl⟩ := b.eq_nat_or_neg <;>
    simp only [nearest_neg, nearest_natCast]
  · exact Int.ofNat_le.2 (shorten_mono (Int.ofNat_le.1 h))
  · obtain ⟨rfl, rfl⟩ : m = 0 ∧ n = 0 := by omega
    exact Int.le_refl _
  · omega
  · have hmono : shorten n ≤ shorten m := shorten_mono (by omega)
    omega

/-- An integer of no more than 24 significant bits, which a float holds as it is. -/
def Short (g : Int) : Prop := ∃ m k, m < 2 ^ 24 ∧ g.natAbs = m * 2 ^ k

theorem short_shorten (n : Nat) : Short (shorten n) := by
  rw [Short, Int.natAbs_natCast]
  rcases Nat.lt_or_ge n (2 ^ 24) with hn | hn
  · exact ⟨n, 0, hn, by rw [shorten_eq_self (Nat.le_of_lt hn), Nat.pow_zero, Nat.mul_one]⟩
  have hn0 : n ≠ 0 := by omega
  have hlog : 24 ≤ n.log2 := (Nat.le_log2 hn0).2 hn
  have hquotient : quotient n (n.log2 - 23) ≤ 2 ^ 24 := by
    have hpow : 2 ^ (n.log2 + 1) = 2 ^ 24 * 2 ^ (n.log2 - 23) := by
      rw [← Nat.pow_add]
      congr 1
      omega
    have hle := (shorten_bounds hn0).2
    rw [hpow] at hle
    exact Nat.le_of_mul_le_mul_right hle (Nat.two_pow_pos _)
  rcases Nat.lt_or_eq_of_le hquotient with hlt | heq
  · exact ⟨_, _, hlt, rfl⟩
  · -- the carry leaves a single bit
    refine ⟨1, 24 + (n.log2 - 23), by decide, ?_⟩
    rw [shorten, heq, Nat.one_mul, Nat.pow_add]

theorem short_nearest (i : Int) : Short (nearest i) := by
  obtain ⟨n, rfl | rfl⟩ := i.eq_nat_or_neg
  · rw [nearest_natCast]
    exact short_shorten n
  · rw [nearest_neg, nearest_natCast, Short, Int.natAbs_neg]
    exact short_shorten n

/-- No multiple of a power of two is nearer than that with the rounded quotient. -/
theorem quotient_nearest (n k q : Nat) :
    ((quotient n k * 2 ^ k : Nat) - n : Int).natAbs ≤ ((q * 2 ^ k : Nat) - n : Int).natAbs := by
  have hdiv := Nat.div_add_mod n (2 ^ k)
  have hmod := Nat.mod_lt n (Nat.two_pow_pos k)
  unfold quotient
  generalize 2 ^ k = u at hdiv hmod ⊢
  rw [Nat.mul_comm] at hdiv
  have hfar : q * u ≤ n / u * u ∨ (n / u + 1) * u ≤ q * u := by
    rcases Nat.lt_or_ge (n / u) q with h | h
    · exact .inr (Nat.mul_le_mul_right u h)
    · exact .inl (Nat.mul_le_mul_right u h)
  rw [Nat.succ_mul] at hfar
  split
  · omega
  · rw [Nat.succ_mul]
    omega

theorem shorten_nearest (n : Nat) {g : Nat} (hg : ∃ m k, m < 2 ^ 24 ∧ g = m * 2 ^ k) :
    ((shorten n : Nat) - n : Int).natAbs ≤ ((g : Nat) - n : Int).natAbs := by
  obtain ⟨m, j, hm, rfl⟩ := hg
  rcases Nat.lt_or_ge n (2 ^ 24) with hn | hn
  · rw [shorten_eq_self (Nat.le_of_lt hn), Int.sub_self]
    exact Nat.zero_le _
  have hlog : 24 ≤ n.log2 := (Nat.le_log2 (by omega)).2 hn
  have hpow : 2 ^ n.log2 = 2 ^ 23 * 2 ^ (n.log2 - 23) := by
    rw [← Nat.pow_add, Nat.add_sub_cancel' (Nat.le_of_succ_le hlog)]
  rcases Nat.lt_or_ge (m * 2 ^ j) (2 ^ n.log2) with hlt | hge
  · -- the power of two below the number is nearer
    have hbelow : 2 ^ n.log2 ≤ n := Nat.log2_self_le (by omega)
    have hnear := quotient_nearest n (n.log2 - 23) (2 ^ 23)
    rw [← hpow] at hnear
    rw [shorten]
    omega
  · -- a multiple of the spacing
    have hj : n.log2 - 23 ≤ j := by
      refine Nat.le_of_not_lt fun hj => ?_
      have hsmall : m * 2 ^ j < 2 ^ n.log2 := by
        calc m * 2 ^ j
          _ < 2 ^ 24 * 2 ^ j := Nat.mul_lt_mul_of_pos_right hm (Nat.two_pow_pos j)
          _ = 2 ^ (24 + j) := (Nat.pow_add 2 24 j).symm
          _ ≤ 2 ^ n.log2 := Nat.pow_le_pow_right (by decide) (by omega)
      omega
    have hmultiple : m * 2 ^ j = m * 2 ^ (j - (n.log2 - 23)) * 2 ^ (n.log2 - 23) := by
      rw [Nat.mul_assoc, ← Nat.pow_add, Nat.sub_add_cancel hj]
    rw [shorten, hmultiple]
    exact quotient_nearest n (n.log2 - 23) _

/-- No integer that a float holds is nearer. -/
theorem nearest_le (i : Int) {g : Int} (hg : Short g) :
    (nearest i - i).natAbs ≤ (g - i).natAbs := by
  have hnear := shorten_nearest i.natAbs hg
  obtain ⟨n, rfl | rfl⟩ := i.eq_nat_or_neg
  · rw [nearest_natCast]
    simp only [Int.natAbs_natCast] at hnear
    omega
  · rw [nearest_neg, nearest_natCast]
    simp only [Int.natAbs_neg, Int.natAbs_natCast] at hnear
    omega

/-! ## Rounding in the model of floats -/

open Float.Model Float.Model.UnpackedFloat

/-- A mantissa of which some bits are shifted out. -/
def shifted (m k : Nat) : ExtendedMantissa := ExtendedMantissa.ofMantissaAndAccuracy m .exact >>> k

theorem shifted_succ (m k : Nat) : shifted m (k + 1) = (shifted m k).shiftRightOne := rfl

theorem shifted_mantissa (m k : Nat) : (shifted m k).mantissa = m / 2 ^ k := by
  induction k with
  | zero => exact (Nat.div_one m).symm
  | succ k ih =>
    rw [shifted_succ, ExtendedMantissa.shiftRightOne, ih, Nat.div_div_eq_div_mul, Nat.pow_succ]

/-- The two residual bits tell whether anything was lost. -/
theorem shifted_lost (m k : Nat) :
    ((shifted m k).roundBit || (shifted m k).stickyBit) = decide (m % 2 ^ k ≠ 0) := by
  induction k with
  | zero => simp [shifted, HShiftRight.hShiftRight, Nat.repeat, Nat.mod_one,
      ExtendedMantissa.ofMantissaAndAccuracy]
  | succ k ih =>
    have hpos := Nat.two_pow_pos k
    simp only [shifted_succ, ExtendedMantissa.shiftRightOne, ih, shifted_mantissa,
      Nat.mod_pow_succ]
    rcases Nat.mod_two_eq_zero_or_one (m / 2 ^ k) with hbit | hbit <;> simp [hbit]

/-- To round what was shifted is to round the quotient. -/
theorem shifted_rounded (m k : Nat) : (shifted m k).roundedMantissa = quotient m k := by
  cases k with
  | zero => exact (quotient_zero m).symm
  | succ k =>
    have hpos := Nat.two_pow_pos k
    have hlost := shifted_lost m k
    have hmod := Nat.mod_pow_succ (b := 2) (x := m) (k := k)
    have hdiv : m / 2 ^ (k + 1) = m / 2 ^ k / 2 := by rw [Nat.div_div_eq_div_mul, Nat.pow_succ]
    rw [quotient, shifted_succ, ExtendedMantissa.shiftRightOne, hlost, shifted_mantissa, hmod,
      hdiv, Nat.pow_succ]
    have hlow := Nat.mod_lt m hpos
    generalize m / 2 ^ k = q
    generalize m % 2 ^ k = r at hlow ⊢
    generalize 2 ^ k = u at hpos hlow ⊢
    -- by the bit that was shifted out last, and by whether anything was before it
    rcases Nat.mod_two_eq_zero_or_one q with hq | hq <;> by_cases hr : r = 0 <;>
      simp [ExtendedMantissa.roundedMantissa, ExtendedMantissa.accuracy,
        Accuracy.roundToNearestEven, hq, hr]
    · omega
    · omega
    · split <;> omega
    · omega

theorem log2_mul_pow {n : Nat} (hn : n ≠ 0) (k : Nat) : (n * 2 ^ k).log2 = n.log2 + k := by
  obtain ⟨hlow, hhigh⟩ := (Nat.log2_eq_iff hn).1 rfl
  have hpos := Nat.two_pow_pos k
  rw [Nat.log2_eq_iff (Nat.mul_ne_zero hn (Nat.ne_of_gt hpos)), Nat.pow_add, Nat.add_right_comm,
    Nat.pow_add]
  exact ⟨Nat.mul_le_mul_right _ hlow, Nat.mul_lt_mul_of_pos_right hhigh hpos⟩

/-- Where the exponent is not near its least, a mantissa is shifted until 24 bits are left. -/
theorem shiftToTargetExponent_eq {m : Nat} {e : Int} (h : -149 ≤ m.log2 + e - 23) :
    shiftToTargetExponent Format.binary32 m e .exact =
      (shifted m (m.log2 - 23), e + (m.log2 - 23 : Nat)) := by
  have hshift : (Format.binary32.targetExponent (totalExponent m e) - e).toNat = m.log2 - 23 := by
    simp only [Format.targetExponent, totalExponent, Format.mantissaBits, Format.minExponent]
    omega
  simp only [shiftToTargetExponent, shiftToExponent, hshift, shifted]

/-- A bit that is carried beyond the 24 is shifted out again without loss. -/
theorem shift_carry {m : Nat} (hlow : 2 ^ 23 ≤ m) (hhigh : m ≤ 2 ^ 24) :
    ∃ c : Nat, c ≤ 1 ∧ m.log2 - 23 = c ∧ 2 ^ 23 ≤ m / 2 ^ c ∧ m / 2 ^ c < 2 ^ 24 ∧
      m / 2 ^ c * 2 ^ c = m := by
  rcases Nat.lt_or_eq_of_le hhigh with hlt | rfl
  · have hlog : m.log2 = 23 := (Nat.log2_eq_iff (by omega)).2 ⟨hlow, hlt⟩
    exact ⟨0, by omega, by omega, by omega, by omega, by omega⟩
  · exact ⟨1, by decide, by rw [Nat.log2_two_pow], by decide, by decide, by decide⟩

/-- Rounded to single precision, a number has the bits of its significand, with at most one
carried. -/
theorem round_eq {n : Nat} (hn : n ≠ 0) (s : Sign) : ∃ c : Nat, c ≤ 1 ∧ ∃ m, ∃ h : 0 < m,
    UnpackedFloat.round Format.binary32 s n 0 = .finite s m (n.log2 + c - 23) h ∧
      2 ^ 23 ≤ m ∧ m < 2 ^ 24 ∧ m * 2 ^ c = significand n := by
  obtain ⟨hlow, hhigh⟩ := significand_bounds hn
  obtain ⟨c, hc, hlog, hlow', hhigh', hmul⟩ := shift_carry hlow hhigh
  have hpos : 0 < significand n / 2 ^ c := by omega
  refine ⟨c, hc, significand n / 2 ^ c, hpos, ?_, hlow', hhigh', hmul⟩
  have hwide : decreaseExponent n 0 (Format.binary32.targetExponent (totalExponent n 0)) =
      (n * 2 ^ (23 - n.log2), -((23 - n.log2 : Nat) : Int)) := by
    have hshift : (0 - Format.binary32.targetExponent (totalExponent n 0)).toNat = 23 - n.log2 := by
      simp only [Format.targetExponent, totalExponent, Format.mantissaBits, Format.minExponent]
      omega
    rw [decreaseExponent, hshift, Nat.shiftLeft_eq, Int.zero_sub]
  have hlogWide : (n * 2 ^ (23 - n.log2)).log2 = n.log2 + (23 - n.log2) := log2_mul_pow hn _
  have hfirst : shiftToTargetExponent Format.binary32 (n * 2 ^ (23 - n.log2))
      (-((23 - n.log2 : Nat) : Int)) .exact =
        (shifted (n * 2 ^ (23 - n.log2)) (n.log2 - 23), (n.log2 : Int) - 23) := by
    rw [shiftToTargetExponent_eq (by omega), hlogWide]
    congr 2 <;> omega
  have hsecond : shiftToTargetExponent Format.binary32 (significand n) ((n.log2 : Int) - 23)
      .exact = (shifted (significand n) c, (n.log2 : Int) + c - 23) := by
    rw [shiftToTargetExponent_eq (by omega), hlog]
    congr 1
    omega
  have hrounded : (shifted (n * 2 ^ (23 - n.log2)) (n.log2 - 23)).roundedMantissa =
      significand n := shifted_rounded _ _
  simp only [UnpackedFloat.round, hwide, roundWithAccuracy, hfirst, hrounded, hsecond,
    shifted_mantissa, dif_neg (Nat.ne_of_gt hpos)]

/-! ## Floats that are integers -/

/-- A float is an integer: a zero, or 24 bits that a power of two takes to its magnitude. -/
inductive Shows : UnpackedFloat → Int → Prop
  | zero (s : Sign) : Shows (.zero s) 0
  | finite (s : Sign) {m k n : Nat} (h : 0 < m) : 2 ^ 23 ≤ m → m < 2 ^ 24 → k < 128 →
    m * 2 ^ k = n * 2 ^ 23 → Shows (.finite s m (k - 23) h) (s.apply n)

section

variable {m k n m' k' n' : Nat}

theorem magnitude_pos (h : 0 < m) (hmul : m * 2 ^ k = n * 2 ^ 23) : 0 < n := by
  have hpos := Nat.mul_pos h (Nat.two_pow_pos k)
  omega

/-- Of two numbers of 24 bits the one with the smaller exponent is smaller. -/
theorem magnitude_lt (hhigh : m < 2 ^ 24) (hmul : m * 2 ^ k = n * 2 ^ 23) (hlow : 2 ^ 23 ≤ m')
    (hmul' : m' * 2 ^ k' = n' * 2 ^ 23) (hk : k < k') : n < n' := by
  refine Nat.lt_of_mul_lt_mul_right (a := 2 ^ 23) ?_
  calc n * 2 ^ 23
    _ = m * 2 ^ k := hmul.symm
    _ < 2 ^ 24 * 2 ^ k := Nat.mul_lt_mul_of_pos_right hhigh (Nat.two_pow_pos k)
    _ = 2 ^ 23 * 2 ^ (k + 1) := by
      rw [← Nat.pow_add, ← Nat.pow_add, Nat.add_left_comm, Nat.add_comm k]
    _ ≤ 2 ^ 23 * 2 ^ k' := Nat.mul_le_mul_left _ (Nat.pow_le_pow_right (by decide) hk)
    _ ≤ m' * 2 ^ k' := Nat.mul_le_mul_right _ hlow
    _ = n' * 2 ^ 23 := hmul'

theorem compare_magnitudes (hlow : 2 ^ 23 ≤ m) (hhigh : m < 2 ^ 24) (hmul : m * 2 ^ k = n * 2 ^ 23)
    (hlow' : 2 ^ 23 ≤ m') (hhigh' : m' < 2 ^ 24) (hmul' : m' * 2 ^ k' = n' * 2 ^ 23) :
    (compare ((k : Int) - 23) (k' - 23)).then (compare m m') = compare (n : Int) n' := by
  rcases Nat.lt_trichotomy k k' with hk | rfl | hk
  · have hn := magnitude_lt hhigh hmul hlow' hmul' hk
    rw [Int.compare_eq_lt.2 (by omega), Int.compare_eq_lt.2 (by omega)]
    rfl
  · have hpos := Nat.two_pow_pos k
    rw [Int.compare_eq_eq.2 rfl]
    rcases Nat.lt_trichotomy m m' with hm | rfl | hm
    · have hlt := Nat.mul_lt_mul_of_pos_right hm hpos
      rw [Int.compare_eq_lt.2 (by omega)]
      exact Nat.compare_eq_lt.2 hm
    · rw [Int.compare_eq_eq.2 (by omega)]
      exact Nat.compare_eq_eq.2 rfl
    · have hlt := Nat.mul_lt_mul_of_pos_right hm hpos
      rw [Int.compare_eq_gt.2 (by omega)]
      exact Nat.compare_eq_gt.2 hm
  · have hn := magnitude_lt hhigh' hmul' hlow hmul hk
    rw [Int.compare_eq_gt.2 (by omega), Int.compare_eq_gt.2 (by omega)]
    rfl

end

namespace Shows

variable {u v : UnpackedFloat} {a b : Int}

theorem neg (h : Shows u a) : Shows u.neg (-a) := by
  cases h with
  | zero s => exact .zero _
  | @finite s m k n h hlow hhigh hk hmul =>
    have hsign : -(s.apply n) = (-s).apply n := by
      cases s with
      | negative => exact Int.neg_neg _
      | positive => rfl
    rw [hsign]
    exact .finite (-s) h hlow hhigh hk hmul

/-- Nothing is lost when it is packed into 32 bits. -/
theorem unpack_pack (h : Shows u a) :
    UnpackedFloat.unpack Format.binary32 (UnpackedFloat.pack Format.binary32 u) = u := by
  cases h with
  | zero s => exact unpack_packedZero
  | @finite s m k n h hlow hhigh hk hmul =>
    have hlog : m.log2 + 1 = Format.binary32.mantissaBits := by
      have hlog : m.log2 = 23 := (Nat.log2_eq_iff (Nat.ne_of_gt h)).2 ⟨hlow, hhigh⟩
      rw [hlog]
      rfl
    have hbias : ((k : Int) - 23 + Format.binary32.exponentBias +
        Format.binary32.mantissaBitsWithoutImplicit).toNat = k + 127 := by
      show ((k : Int) - 23 + 127 + 23).toNat = k + 127
      omega
    have hpack : UnpackedFloat.pack Format.binary32 (.finite s m (k - 23) h) =
        packComponents Format.binary32 s (BitVec.ofNat 8 (k + 127)) (BitVec.ofNat 23 m) := by
      have hfits : ¬2 ^ Format.binary32.exponentBits ≤ k + 127 + 1 := by
        show ¬2 ^ 8 ≤ k + 127 + 1
        omega
      simp only [UnpackedFloat.pack, hbias, hlog, if_true, if_neg hfits]
    have hexponent : (BitVec.ofNat 8 (k + 127)).toNat = k + 127 :=
      Nat.mod_eq_of_lt (by omega)
    have hall : BitVec.ofNat 8 (k + 127) ≠ -1#8 := fun heq => by
      have hnat := hexponent.symm.trans (congrArg BitVec.toNat heq)
      have : (-1#8 : BitVec 8).toNat = 255 := rfl
      omega
    have hzero : BitVec.ofNat 8 (k + 127) ≠ 0#8 := fun heq => by
      have hnat := hexponent.symm.trans (congrArg BitVec.toNat heq)
      have : (0#8 : BitVec 8).toNat = 0 := rfl
      omega
    have hbits : (1#1 ++ BitVec.ofNat 23 m).toNat = m := by
      have hmod : (BitVec.ofNat 23 m).toNat = m - 2 ^ 23 := by
        rw [BitVec.toNat_ofNat]
        omega
      rw [BitVec.toNat_append, ← Nat.shiftLeft_add_eq_or_of_lt (BitVec.isLt _), hmod]
      show 1 <<< 23 + (m - 2 ^ 23) = m
      omega
    rw [hpack]
    simp only [UnpackedFloat.unpack, unpackMantissa_packComponents, unpackExponent_packComponents,
      unpackSign_packComponents, if_neg hall, if_neg hzero, hexponent, hbits]
    have hback : ((k + 127 : Nat) : Int) - (Format.binary32.exponentBias +
        Format.binary32.mantissaBitsWithoutImplicit) = k - 23 := by
      show ((k + 127 : Nat) : Int) - (127 + 23) = k - 23
      omega
    rw [Sign.ofBitVec_toBitVec, hback]

/-- Floats that are integers compare as the integers. -/
theorem compare_eq (ha : Shows u a) (hb : Shows v b) :
    UnpackedFloat.compare u v = some (compare a b) := by
  cases ha with
  | zero s =>
    cases hb with
    | zero s' => rfl
    | @finite s' m' k' n' h' hlow' hhigh' hk' hmul' =>
      have hn' := magnitude_pos h' hmul'
      cases s' with
      | negative =>
        exact congrArg some (Int.compare_eq_gt.2 (by simp only [Sign.apply]; omega)).symm
      | positive =>
        exact congrArg some (Int.compare_eq_lt.2 (by simp only [Sign.apply]; omega)).symm
  | @finite s m k n h hlow hhigh hk hmul =>
    have hn := magnitude_pos h hmul
    cases hb with
    | zero s' =>
      cases s with
      | negative =>
        exact congrArg some (Int.compare_eq_lt.2 (by simp only [Sign.apply]; omega)).symm
      | positive =>
        exact congrArg some (Int.compare_eq_gt.2 (by simp only [Sign.apply]; omega)).symm
    | @finite s' m' k' n' h' hlow' hhigh' hk' hmul' =>
      have hn' := magnitude_pos h' hmul'
      have hcompare := compare_magnitudes hlow hhigh hmul hlow' hhigh' hmul'
      cases s <;> cases s'
      · show some ((compare ((k : Int) - 23) (k' - 23)).then (compare m m')).swap =
          some (compare (-(n : Int)) (-n'))
        rw [hcompare, Int.compare_swap, Int.compare_eq_ite_lt, Int.compare_eq_ite_lt]
        simp only [Int.neg_lt_neg_iff]
      · exact congrArg some (Int.compare_eq_lt.2 (by simp only [Sign.apply]; omega)).symm
      · exact congrArg some (Int.compare_eq_gt.2 (by simp only [Sign.apply]; omega)).symm
      · exact congrArg some hcompare

end Shows

/-- A float that is an integer. -/
def IsInteger (x : Float32) (a : Int) : Prop := Shows x.toModel.unpack a

theorem isInteger_pack {u : UnpackedFloat} {a : Int} (h : Shows u a) :
    IsInteger (.ofModel (.pack u)) a := by
  show Shows (UnpackedFloat.unpack Format.binary32 (UnpackedFloat.pack Format.binary32 u)) a
  rwa [h.unpack_pack]

theorem IsInteger.neg {x : Float32} {a : Int} (h : IsInteger x a) : IsInteger (-x) (-a) :=
  isInteger_pack (Shows.neg h)

theorem isInteger_toFloat32 (n : UInt32) : IsInteger n.toFloat32 (shorten n.toNat) := by
  refine isInteger_pack (u := UnpackedFloat.normalize Format.binary32 n.toNat 0 .positive) ?_
  rcases Nat.eq_zero_or_pos n.toNat with hn | hn
  · rw [hn]
    exact .zero .positive
  · have hlog : n.toNat.log2 < 32 := (Nat.log2_lt (Nat.ne_of_gt hn)).2 n.toNat_lt
    obtain ⟨c, hc, m, hm, hround, hlow, hhigh, hmul⟩ := round_eq (Nat.ne_of_gt hn) .positive
    have hnormal : UnpackedFloat.normalize Format.binary32 n.toNat 0 .positive =
        .finite .positive m ((n.toNat.log2 + c : Nat) - 23) hm := by
      rw [UnpackedFloat.normalize, Int.compare_eq_gt.2 (by omega)]
      exact hround
    have hvalue : m * 2 ^ (n.toNat.log2 + c) = shorten n.toNat * 2 ^ 23 := by
      rw [← significand_mul, ← hmul, Nat.mul_assoc, ← Nat.pow_add, Nat.add_comm c]
    rw [hnormal]
    exact .finite .positive hm hlow hhigh (by omega) hvalue

/-- An integer goes to the nearest integer that a float holds. -/
theorem isInteger_ofInt (i : Int32) : IsInteger (ofInt i) (nearest i.toInt) := by
  have hbounds : i.toInt.natAbs < 2 ^ 32 := by
    have := i.toInt_lt
    have := i.le_toInt
    omega
  have h := isInteger_toFloat32 i.toInt.natAbs.toUInt32
  have hmagnitude : i.toInt.natAbs.toUInt32.toNat = i.toInt.natAbs := Nat.mod_eq_of_lt hbounds
  rw [hmagnitude, ← nearest_natCast] at h
  unfold ofInt
  split
  · next hneg =>
    have hi : -(i.toInt.natAbs : Int) = i.toInt := by
      have hlt : i.toInt < 0 := Int32.lt_iff_toInt_lt.1 hneg
      omega
    have hopposite := h.neg
    rwa [← nearest_neg, hi] at hopposite
  · next hpos =>
    have hi : (i.toInt.natAbs : Int) = i.toInt := by
      have hge : ¬i.toInt < 0 := fun hlt => hpos (Int32.lt_iff_toInt_lt.2 hlt)
      omega
    rwa [hi] at h

/-- Floats that are integers stand in the relations of these. -/
theorem test_eq {x y : Float32} {a b : Int} (hx : IsInteger x a) (hy : IsInteger y b)
    (cmp : Comparison) : cmp.test x y = cmp.testInt a b := by
  have hlt : ∀ {x y : Float32} {a b : Int}, IsInteger x a → IsInteger y b →
      decide (x < y) = decide (a < b) := by
    intro x y a b hx hy
    have hiff : x < y ↔
        (UnpackedFloat.compare x.toModel.unpack y.toModel.unpack == some .lt) = true :=
      decide_eq_true_iff
    rw [hx.compare_eq hy] at hiff
    simp [hiff, Int.compare_eq_lt]
  have hle : ∀ {x y : Float32} {a b : Int}, IsInteger x a → IsInteger y b →
      decide (x ≤ y) = decide (a ≤ b) := by
    intro x y a b hx hy
    have hiff : x ≤ y ↔
        (UnpackedFloat.compare x.toModel.unpack y.toModel.unpack).any (·.isLE) = true :=
      decide_eq_true_iff
    rw [hx.compare_eq hy] at hiff
    simp [hiff, Int.isLE_compare]
  have heq : (x == y) = (a == b) := by
    show (UnpackedFloat.compare x.toModel.unpack y.toModel.unpack == some .eq) = _
    rw [hx.compare_eq hy, Bool.eq_iff_iff]
    simp
  cases cmp with
  | lt => exact hlt hx hy
  | le => exact hle hx hy
  | gt => exact hlt hy hx
  | ge => exact hle hy hx
  | eq => exact heq
  | ne => exact congrArg not heq

end Single

end Shading
