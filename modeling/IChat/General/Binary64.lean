import Mathlib.Algebra.Group.Nat.Defs
import Mathlib.Data.Nat.Log
import Mathlib.Order.Nat

/-!
# Quotients as binary floating-point numbers

The quotient of two natural numbers of at least one, rounded to 53 bits of precision, ties to even,
and the least integer not below the rounded quotient. `ceil_divide`: up to 2⁵³ that is the least
integer not below the exact quotient.
-/

namespace Binary64

/-- The integer nearest to a quotient, of two the even one. -/
def roundDiv (a b : ℕ) : ℕ :=
  if 2 * (a % b) < b ∨ 2 * (a % b) = b ∧ a / b % 2 = 0 then a / b else a / b + 1

/-- A number `significand * 2 ^ exponent` that is not negative. -/
structure Finite where
  significand : ℕ
  exponent : ℤ
  deriving DecidableEq

/-- The least integer that is not below the number. -/
def Finite.ceil (x : Finite) : ℕ :=
  if 0 ≤ x.exponent then x.significand * 2 ^ x.exponent.toNat
  else (x.significand + 2 ^ (-x.exponent).toNat - 1) / 2 ^ (-x.exponent).toNat

/-- The number without its fraction. -/
def Finite.floor (x : Finite) : ℕ :=
  if 0 ≤ x.exponent then x.significand * 2 ^ x.exponent.toNat
  else x.significand / 2 ^ (-x.exponent).toNat

/-- The numbers lie below this power of two. -/
@[irreducible] def rangeBits : ℕ := 1024

theorem lt_rangeBits : 53 < rangeBits := by
  rw [rangeBits]
  decide

/-- The rounded quotient of two numbers, the first of which is not the smaller one, or none if it is
too large. -/
def divide (a b : ℕ) : Option Finite :=
  let bits := Nat.log 2 (a / b)
  let x : Finite :=
    if bits ≤ 52 then ⟨roundDiv (a * 2 ^ (52 - bits)) b, -(52 - bits : ℕ)⟩
    else ⟨roundDiv a (b * 2 ^ (bits - 52)), (bits - 52 : ℕ)⟩
  if x.ceil < 2 ^ rangeBits then some x else none

variable {a b : ℕ}

theorem div_le_roundDiv (a b : ℕ) : a / b ≤ roundDiv a b := by
  rw [roundDiv]
  split_ifs <;> omega

theorem roundDiv_le (a b : ℕ) : roundDiv a b ≤ a / b + 1 := by
  rw [roundDiv]
  split_ifs <;> omega

theorem roundDiv_of_mod_eq_zero (hb : 0 < b) (h : a % b = 0) : roundDiv a b = a / b := by
  rw [roundDiv, if_pos (.inl (by omega))]

theorem roundDiv_of_lt (h : b < 2 * (a % b)) : roundDiv a b = a / b + 1 := by
  rw [roundDiv, if_neg (by omega)]

/-- The scaled quotient lies above the integer below the quotient, and not above the next one. -/
theorem roundDiv_mul_two_pow (hb : 0 < b) {f : ℕ} (hmod : a % b ≠ 0) (hsmall : b < 2 ^ (f + 1)) :
    a / b * 2 ^ f < roundDiv (a * 2 ^ f) b ∧ roundDiv (a * 2 ^ f) b ≤ (a / b + 1) * 2 ^ f := by
  have hlt := Nat.mod_lt a hb
  have hsplit : a * 2 ^ f = b * (a / b * 2 ^ f) + a % b * 2 ^ f := by
    conv => lhs; rw [← Nat.div_add_mod a b]
    rw [Nat.add_mul, Nat.mul_assoc]
  have hdiv : a * 2 ^ f / b = a / b * 2 ^ f + a % b * 2 ^ f / b := by
    rw [hsplit, Nat.mul_add_div hb]
  have hmodf : a * 2 ^ f % b = a % b * 2 ^ f % b := by
    rw [hsplit, Nat.mul_add_mod]
  have hone : 2 ^ f ≤ a % b * 2 ^ f := Nat.le_mul_of_pos_left _ (Nat.pos_of_ne_zero hmod)
  have hpow : 2 ^ (f + 1) = 2 * 2 ^ f := by rw [Nat.pow_succ, Nat.mul_comm]
  have hquot : a % b * 2 ^ f / b < 2 ^ f :=
    Nat.div_lt_of_lt_mul (Nat.mul_lt_mul_of_pos_right hlt (Nat.two_pow_pos f))
  constructor
  · by_cases hle : b ≤ a % b * 2 ^ f
    · have hpos := Nat.div_pos hle hb
      have hround := div_le_roundDiv (a * 2 ^ f) b
      omega
    · -- the rest is more than a half
      have hround : roundDiv (a * 2 ^ f) b = a * 2 ^ f / b + 1 := by
        refine roundDiv_of_lt ?_
        rw [hmodf, Nat.mod_eq_of_lt (Nat.not_le.mp hle)]
        rw [hpow] at hsmall
        exact hsmall.trans_le (Nat.mul_le_mul_left 2 hone)
      rw [hround, hdiv, Nat.add_assoc]
      exact Nat.lt_add_of_pos_right (Nat.succ_pos _)
  · have hround := roundDiv_le (a * 2 ^ f) b
    rw [hdiv, Nat.add_assoc] at hround
    rw [Nat.add_mul, Nat.one_mul]
    exact hround.trans (Nat.add_le_add_left hquot _)

/-- The quotient before it is rounded to the range of the numbers. -/
theorem divide_eq (a b : ℕ) : divide a b =
    (let bits := Nat.log 2 (a / b)
    let x : Finite :=
      if bits ≤ 52 then ⟨roundDiv (a * 2 ^ (52 - bits)) b, -(52 - bits : ℕ)⟩
      else ⟨roundDiv a (b * 2 ^ (bits - 52)), (bits - 52 : ℕ)⟩
    if x.ceil < 2 ^ rangeBits then some x else none) := rfl

theorem Finite.ceil_neg (m f : ℕ) : Finite.ceil ⟨m, -(f : ℤ)⟩ = (m + 2 ^ f - 1) / 2 ^ f := by
  rw [Finite.ceil]
  dsimp only
  rw [Int.neg_neg, Int.toNat_natCast]
  split_ifs with h
  · obtain rfl : f = 0 := by omega
    rw [Int.natCast_zero, Int.neg_zero, Int.toNat_zero, Nat.pow_zero, Nat.mul_one,
      Nat.add_sub_cancel, Nat.div_one]
  · rfl

theorem Finite.ceil_nonneg (m f : ℕ) : Finite.ceil ⟨m, (f : ℤ)⟩ = m * 2 ^ f := by
  rw [Finite.ceil]
  exact if_pos (Int.natCast_nonneg f)

/-- The scaled quotient, rounded up to an integer. -/
theorem ceil_roundDiv (hb : 0 < b) {f : ℕ} (hsmall : a % b ≠ 0 → b < 2 ^ (f + 1)) :
    (roundDiv (a * 2 ^ f) b + 2 ^ f - 1) / 2 ^ f = (a + b - 1) / b := by
  have hpow := Nat.two_pow_pos f
  have hlt := Nat.mod_lt a hb
  have hsplit := Nat.div_add_mod a b
  by_cases hmod : a % b = 0
  · have hround : roundDiv (a * 2 ^ f) b = a / b * 2 ^ f := by
      have hmul : a * 2 ^ f = b * (a / b * 2 ^ f) := by
        conv => lhs; rw [← hsplit, hmod, Nat.add_zero, Nat.mul_assoc]
      rw [roundDiv_of_mod_eq_zero hb (by rw [hmul, Nat.mul_mod_right]), hmul,
        Nat.mul_div_cancel_left _ hb]
    have hceil : (a / b * 2 ^ f + 2 ^ f - 1) / 2 ^ f = a / b := by
      rw [Nat.div_eq_iff hpow]
      omega
    rw [hround, hceil, eq_comm, Nat.div_eq_iff hb, Nat.mul_comm]
    omega
  · obtain ⟨hlower, hupper⟩ := roundDiv_mul_two_pow hb hmod (hsmall hmod)
    generalize roundDiv (a * 2 ^ f) b = m at hlower hupper ⊢
    have hleft : (m + 2 ^ f - 1) / 2 ^ f = a / b + 1 := by
      rw [Nat.div_eq_iff hpow]
      rw [Nat.add_mul, Nat.one_mul] at hupper ⊢
      omega
    have hright : (a + b - 1) / b = a / b + 1 := by
      rw [Nat.div_eq_iff hb, Nat.add_mul, Nat.one_mul, Nat.mul_comm]
      omega
    rw [hleft, hright]

/-- **Exactness** of the least integer not below the quotient. -/
theorem ceil_divide (hb : 0 < b) (hba : b ≤ a) (ha : a ≤ 2 ^ 53) :
    ∃ x, divide a b = some x ∧ x.ceil = (a + b - 1) / b := by
  have hquot : 0 < a / b := Nat.div_pos hba hb
  have hle : a / b ≤ a := Nat.div_le_self a b
  have hlog : 2 ^ Nat.log 2 (a / b) ≤ a / b := Nat.pow_log_le_self 2 (by omega)
  have hsplit := Nat.div_add_mod a b
  have hrange : (a + b - 1) / b < 2 ^ rangeBits := by
    have hbound : (a + b - 1) / b ≤ a := by
      rw [Nat.div_le_iff_le_mul_add_pred hb]
      have hmul : a ≤ b * a := Nat.le_mul_of_pos_left a hb
      omega
    exact (hbound.trans ha).trans_lt (Nat.pow_lt_pow_right Nat.one_lt_two lt_rangeBits)
  rw [divide_eq]
  dsimp only
  by_cases hbits : Nat.log 2 (a / b) ≤ 52
  · rw [if_pos hbits]
    have hsmall : a % b ≠ 0 → b < 2 ^ (52 - Nat.log 2 (a / b) + 1) := by
      intro hmod
      have hpow : 2 ^ (52 - Nat.log 2 (a / b) + 1) * 2 ^ Nat.log 2 (a / b) = 2 ^ 53 := by
        rw [← Nat.pow_add]
        congr 1
        omega
      refine Nat.lt_of_mul_lt_mul_right (a := 2 ^ Nat.log 2 (a / b)) ?_
      calc b * 2 ^ Nat.log 2 (a / b) ≤ b * (a / b) := Nat.mul_le_mul_left b hlog
        _ < a := by omega
        _ ≤ 2 ^ 53 := ha
        _ = _ := hpow.symm
    have hceil := ceil_roundDiv hb hsmall
    rw [Finite.ceil_neg, hceil, if_pos hrange]
    exact ⟨_, rfl, (Finite.ceil_neg _ _).trans hceil⟩
  · -- only the quotient 2⁵³ has more bits, and the divisor one
    have hpow : 2 ^ 53 ≤ 2 ^ Nat.log 2 (a / b) := Nat.pow_le_pow_right (by decide) (by omega)
    have hone : b = 1 := by
      by_contra hne
      have hmul : 2 * (a / b) ≤ b * (a / b) := Nat.mul_le_mul_right _ (by omega)
      omega
    obtain rfl : a = 2 ^ 53 := by omega
    subst hone
    have hbits : Nat.log 2 (2 ^ 53 / 1) = 53 := by
      rw [Nat.div_one]
      exact Nat.log_pow Nat.one_lt_two 53
    have hround : roundDiv (2 ^ 53) (1 * 2 ^ (53 - 52)) = 2 ^ 52 := by decide
    have hceil : Finite.ceil ⟨2 ^ 52, ((53 - 52 : ℕ) : ℤ)⟩ = (2 ^ 53 + 1 - 1) / 1 := by decide
    rw [hbits, if_neg (show ¬53 ≤ 52 by decide), hround, hceil, if_pos hrange]
    exact ⟨_, rfl, hceil⟩

/-- The rounded quotient is at least one. -/
theorem ceil_pos (hb : 0 < b) (hba : b ≤ a) {x : Finite} (h : divide a b = some x) :
    0 < x.ceil := by
  have hquot : 0 < a / b := Nat.div_pos hba hb
  have hlog : 2 ^ Nat.log 2 (a / b) ≤ a / b := Nat.pow_log_le_self 2 (by omega)
  rw [divide_eq] at h
  dsimp only at h
  by_cases hbits : Nat.log 2 (a / b) ≤ 52
  · rw [if_pos hbits] at h
    have hone : 0 < roundDiv (a * 2 ^ (52 - Nat.log 2 (a / b))) b := by
      refine lt_of_lt_of_le (Nat.div_pos ?_ hb) (div_le_roundDiv _ _)
      exact hba.trans (Nat.le_mul_of_pos_right a (Nat.two_pow_pos _))
    split_ifs at h
    rw [← Option.some.inj h, Finite.ceil_neg]
    refine Nat.div_pos ?_ (Nat.two_pow_pos _)
    omega
  · rw [if_neg hbits] at h
    have hone : 0 < roundDiv a (b * 2 ^ (Nat.log 2 (a / b) - 52)) := by
      have hmul : b * 2 ^ (Nat.log 2 (a / b) - 52) ≤ a := by
        refine le_trans (Nat.mul_le_mul_left b ?_) (Nat.mul_div_le a b)
        exact (Nat.pow_le_pow_right Nat.two_pos (Nat.sub_le _ _)).trans hlog
      have hpos : 0 < b * 2 ^ (Nat.log 2 (a / b) - 52) := Nat.mul_pos hb (Nat.two_pow_pos _)
      exact lt_of_lt_of_le (Nat.div_pos hmul hpos) (div_le_roundDiv _ _)
    split_ifs at h
    rw [← Option.some.inj h, Finite.ceil_nonneg]
    exact Nat.mul_pos hone (Nat.two_pow_pos _)

end Binary64
