import Mathlib.Algebra.Order.Field.Rat
import Mathlib.Data.Rat.Floor
import Mathlib.Tactic.Linarith
import Mathlib.Tactic.NormNum
/-!
# Binary32 — numbers with 24 bits

The finite numbers of the format, as multiples of the least one, and without an upper end: an overflow does not happen.
An operation is the exact one, rounded to the nearest number of the format, ties to the even one; the quotient by 0 is 0.
`roundUnits_le` and `le_roundUnits` say what is used of rounding: it does not pass a number of the format.
-/
namespace Lib

/-- An integer with 24 bits, and zeros. -/
def IsSingle (n : ℤ) : Prop := ∃ (m : ℤ) (e : ℕ), |m| ≤ 2 ^ 24 ∧ n = m * 2 ^ e

/-! ## Integers -/

/-- The nearest integer, the even one of two. -/
def roundEven (x : ℚ) : ℤ :=
  if x - ⌊x⌋ < 1 / 2 ∨ x - ⌊x⌋ = 1 / 2 ∧ ⌊x⌋ % 2 = 0 then ⌊x⌋ else ⌊x⌋ + 1

theorem le_roundEven {n : ℤ} {x : ℚ} (h : (n : ℚ) ≤ x) : n ≤ roundEven x := by
  have hfloor := Int.le_floor.2 h
  unfold roundEven
  split <;> omega

theorem roundEven_le {n : ℤ} {x : ℚ} (h : x ≤ n) : roundEven x ≤ n := by
  have hfloor : ⌊x⌋ ≤ n := Int.cast_le.1 ((Int.floor_le x).trans h)
  unfold roundEven
  split
  · exact hfloor
  · rename_i hup
    -- there is something behind the integral part
    have hlt : ((⌊x⌋ : ℤ) : ℚ) < n := by
      rw [not_or] at hup
      linarith [not_lt.1 hup.1]
    have hlt := Int.cast_lt.1 hlt
    omega

/-! ## Rounding -/

/-- The zeros behind the 24 bits. -/
def zeros (x : ℚ) : ℕ := Nat.log2 ⌊|x|⌋.toNat - 23

def roundUnits (x : ℚ) : ℤ := roundEven (x / 2 ^ zeros x) * 2 ^ zeros x

theorem two_pow_pos' (e : ℕ) : (0 : ℚ) < 2 ^ e := pow_pos two_pos e

theorem floor_abs (x : ℚ) : ((⌊|x|⌋.toNat : ℤ) : ℤ) = ⌊|x|⌋ := Int.toNat_of_nonneg (Int.floor_nonneg.2 (abs_nonneg x))

/-- There are no more than 24 bits. -/
theorem abs_le_zeros (x : ℚ) : |x| ≤ 2 ^ 24 * 2 ^ zeros x := by
  have hlog : ⌊|x|⌋.toNat < 2 ^ (Nat.log2 ⌊|x|⌋.toNat + 1) := Nat.lt_log2_self
  have hle : 2 ^ (Nat.log2 ⌊|x|⌋.toNat + 1) ≤ 2 ^ (24 + zeros x) := Nat.pow_le_pow_right two_pos (by
    unfold zeros
    omega)
  have hfloor : ⌊|x|⌋ + 1 ≤ 2 ^ 24 * 2 ^ zeros x := by
    rw [← floor_abs, ← pow_add]
    exact_mod_cast hlog.trans_le hle
  calc |x| ≤ ((⌊|x|⌋ + 1 : ℤ) : ℚ) := by
        push_cast
        exact (Int.lt_floor_add_one |x|).le
    _ ≤ ((2 ^ 24 * 2 ^ zeros x : ℤ) : ℚ) := Int.cast_le.2 hfloor
    _ = 2 ^ 24 * 2 ^ zeros x := by push_cast; rfl

/-- Where there are zeros all the bits are in use. -/
theorem le_abs_of_zeros {x : ℚ} (h : 0 < zeros x) : 2 ^ 23 * 2 ^ zeros x ≤ |x| := by
  have heq : 23 + zeros x = Nat.log2 ⌊|x|⌋.toNat := by
    unfold zeros at h ⊢
    omega
  have hne : ⌊|x|⌋.toNat ≠ 0 := by
    intro hzero
    rw [zeros, hzero] at h
    exact absurd h (by decide)
  have hlog : 2 ^ Nat.log2 ⌊|x|⌋.toNat ≤ ⌊|x|⌋.toNat := Nat.log2_self_le hne
  have hfloor : (2 ^ 23 * 2 ^ zeros x : ℤ) ≤ ⌊|x|⌋ := by
    rw [← floor_abs, ← pow_add, heq]
    exact_mod_cast hlog
  calc (2 ^ 23 * 2 ^ zeros x : ℚ) = ((2 ^ 23 * 2 ^ zeros x : ℤ) : ℚ) := by push_cast; rfl
    _ ≤ (⌊|x|⌋ : ℚ) := Int.cast_le.2 hfloor
    _ ≤ |x| := Int.floor_le |x|

theorem isSingle_roundUnits (x : ℚ) : IsSingle (roundUnits x) := by
  have hpos := two_pow_pos' (zeros x)
  have habs := abs_le.1 (abs_le_zeros x)
  refine ⟨roundEven (x / 2 ^ zeros x), zeros x, abs_le.2 ⟨le_roundEven ?_, roundEven_le ?_⟩, rfl⟩
  · rw [le_div_iff₀ hpos]
    push_cast
    linarith [habs.1]
  · rw [div_le_iff₀ hpos]
    push_cast
    exact habs.2

/-- Below a number of the format there is a multiple of the last bit, as far as the number that is rounded. -/
theorem exists_multiple_le {x : ℚ} {n : ℤ} (hn : IsSingle n) (h : x ≤ n) :
    ∃ m : ℤ, x ≤ m * 2 ^ zeros x ∧ m * 2 ^ zeros x ≤ n := by
  obtain ⟨m, e, hm, rfl⟩ := hn
  rcases le_or_gt (zeros x) e with hle | hlt
  · obtain ⟨j, rfl⟩ := Nat.exists_eq_add_of_le hle
    have heq : m * 2 ^ j * 2 ^ zeros x = m * 2 ^ (zeros x + j) := by
      rw [pow_add]
      ring
    exact ⟨m * 2 ^ j, by exact_mod_cast heq ▸ h, heq.le⟩
  · -- the number has all its bits, and so it is not nearer to 0 than the one of the format
    have hbits := le_abs_of_zeros (show 0 < zeros x by omega)
    have hsmall : |m * 2 ^ e| ≤ 2 ^ 23 * 2 ^ zeros x := by
      obtain ⟨j, hj⟩ := Nat.exists_eq_add_of_le (show e + 1 ≤ zeros x by omega)
      have hpow : (2 : ℤ) ^ 24 * 2 ^ e ≤ 2 ^ 23 * 2 ^ zeros x := by
        have hge : (2 : ℤ) ^ (e + 1) ≤ 2 ^ zeros x := pow_le_pow_right₀ (by decide) (by omega)
        rw [pow_succ] at hge
        linarith
      rw [abs_mul, abs_of_pos (pow_pos (by decide : (0 : ℤ) < 2) e)]
      exact (mul_le_mul_of_nonneg_right hm (pow_pos (by decide) e).le).trans hpow
    have hn := abs_le.1 hsmall
    have hcast : ((m * 2 ^ e : ℤ) : ℚ) ≤ 2 ^ 23 * 2 ^ zeros x := by exact_mod_cast hn.2
    rcases abs_cases x with ⟨habs, -⟩ | ⟨habs, -⟩
    · rw [habs] at hbits
      refine ⟨2 ^ 23, by push_cast; exact h.trans hcast, ?_⟩
      exact_mod_cast hbits.trans h
    · rw [habs] at hbits
      refine ⟨-2 ^ 23, by push_cast; linarith, by linarith [hn.1]⟩

theorem isSingle_neg {n : ℤ} (hn : IsSingle n) : IsSingle (-n) := by
  obtain ⟨m, e, hm, rfl⟩ := hn
  exact ⟨-m, e, by rwa [abs_neg], by ring⟩

theorem zeros_neg (x : ℚ) : zeros (-x) = zeros x := by rw [zeros, abs_neg, zeros]

/-- **Rounding does not pass a number of the format**, from below. -/
theorem roundUnits_le {x : ℚ} {n : ℤ} (hn : IsSingle n) (h : x ≤ n) : roundUnits x ≤ n := by
  obtain ⟨m, hm, hmn⟩ := exists_multiple_le hn h
  have hround : roundEven (x / 2 ^ zeros x) ≤ m := roundEven_le ((div_le_iff₀ (two_pow_pos' _)).2 hm)
  exact (mul_le_mul_of_nonneg_right hround (pow_pos (by decide) _).le).trans hmn

/-- And from above. -/
theorem le_roundUnits {x : ℚ} {n : ℤ} (hn : IsSingle n) (h : (n : ℚ) ≤ x) : n ≤ roundUnits x := by
  obtain ⟨m, hm, hmn⟩ := exists_multiple_le (isSingle_neg hn) (show -x ≤ ((-n : ℤ) : ℚ) by push_cast; linarith)
  rw [zeros_neg] at hm hmn
  have hround : -m ≤ roundEven (x / 2 ^ zeros x) := by
    refine le_roundEven ((le_div_iff₀ (two_pow_pos' _)).2 ?_)
    push_cast
    linarith
  have hmul := mul_le_mul_of_nonneg_right hround (pow_pos (by decide : (0 : ℤ) < 2) (zeros x)).le
  rw [roundUnits]
  linarith

/-! ## The type -/

/-- A number of the format, in units of the least positive one, which is `2 ^ -149`. -/
structure Binary32 where
  units : ℤ
  single : IsSingle units

namespace Binary32

theorem units_injective : Function.Injective units := by
  rintro ⟨a, _⟩ ⟨b, _⟩ rfl
  rfl

instance : LinearOrder Binary32 := LinearOrder.lift' units units_injective

/-- The number nearest to some units. -/
def ofUnits (x : ℚ) : Binary32 := ⟨roundUnits x, isSingle_roundUnits x⟩

/-- The number nearest to a number. -/
def round (q : ℚ) : Binary32 := ofUnits (q * 2 ^ 149)

instance : Zero Binary32 := ⟨round 0⟩
instance : One Binary32 := ⟨round 1⟩
instance : NatCast Binary32 := ⟨fun n => round n⟩
instance : Add Binary32 := ⟨fun a b => ofUnits (a.units + b.units : ℤ)⟩
instance : Sub Binary32 := ⟨fun a b => ofUnits (a.units - b.units : ℤ)⟩
instance : Neg Binary32 := ⟨fun a => ⟨-a.units, isSingle_neg a.single⟩⟩
instance : Mul Binary32 := ⟨fun a b => ofUnits (a.units * b.units / 2 ^ 149)⟩
instance : Div Binary32 := ⟨fun a b => ofUnits (a.units / b.units * 2 ^ 149)⟩

/-- Half the sum, as it is computed: both operations round. -/
def halfSum (lo hi : Binary32) : Binary32 := ofUnits ((lo + hi).units / 2)

theorem isSingle_double {n : ℤ} (hn : IsSingle n) : IsSingle (n + n) := by
  obtain ⟨m, e, hm, rfl⟩ := hn
  exact ⟨m, e + 1, hm, by rw [pow_succ]; ring⟩

/-- **Half the sum does not leave the interval.** -/
theorem le_halfSum {lo hi : Binary32} (h : lo ≤ hi) : lo ≤ halfSum lo hi := by
  have h : lo.units ≤ hi.units := h
  have hsum : lo.units + lo.units ≤ (lo + hi).units :=
    le_roundUnits (isSingle_double lo.single) (Int.cast_le.2 (by omega))
  refine le_roundUnits lo.single ?_
  rw [le_div_iff₀ two_pos]
  have hcast := Int.cast_le (R := ℚ).2 hsum
  push_cast at hcast
  linarith

theorem halfSum_le {lo hi : Binary32} (h : lo ≤ hi) : halfSum lo hi ≤ hi := by
  have h : lo.units ≤ hi.units := h
  have hsum : (lo + hi).units ≤ hi.units + hi.units :=
    roundUnits_le (isSingle_double hi.single) (Int.cast_le.2 (by omega))
  refine roundUnits_le hi.single ?_
  rw [div_le_iff₀ two_pos]
  have hcast := Int.cast_le (R := ℚ).2 hsum
  push_cast at hcast
  linarith

end Binary32

end Lib
