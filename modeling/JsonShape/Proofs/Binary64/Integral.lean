import JsonShape.Json.Number
import Mathlib.Algebra.Order.Ring.Nat
import Mathlib.Tactic.Ring

/-!
# Rounded whole numbers are whole

The floating-point number nearest to a whole number is whole itself: up to a precision of one the
rounding is exact, and beyond it every floating-point number is whole (`isIntegral_of_ofInt?`). So a
number that agrees with a whole one, on the common scale, is whole (`isIntegral_of_sameValue`).
-/

namespace JsonShape

namespace Binary64

theorem one_shiftLeft_dvd {a b : Nat} (h : a ≤ b) : 1 <<< a ∣ 1 <<< b := by
  rw [Nat.one_shiftLeft, Nat.one_shiftLeft]
  exact pow_dvd_pow 2 h

/-- Rounding an exact quotient changes nothing. -/
theorem roundDiv_mul_of_dvd {n d : Nat} (hd : 0 < d) (h : d ∣ n) : roundDiv n d * d = n := by
  have hmod : n % d = 0 := Nat.mod_eq_zero_of_dvd h
  simp only [roundDiv, hmod, Nat.mul_zero, if_pos hd]
  exact Nat.div_mul_cancel h

theorem roundDiv_shiftLeft_of_dvd {n e : Nat} (h : 1 <<< e ∣ n) :
    roundDiv n (1 <<< e) <<< e = n := by
  have hpos : 0 < 1 <<< e := Nat.one_shiftLeft e ▸ Nat.two_pow_pos e
  rw [Nat.shiftLeft_eq (roundDiv _ _), ← Nat.one_shiftLeft]
  exact roundDiv_mul_of_dvd hpos h

theorem magnitude_of_ofParts? {negative : Bool} {significand exponent : Nat} {x : Binary64}
    (h : ofParts? negative significand exponent = some x) :
    x.magnitude = significand <<< exponent := by
  unfold ofParts? at h
  split at h
  · rw [← Option.some.inj h, magnitude]
  · simp at h

/-- The exponent to which a quotient is rounded, but for a carry. -/
def grain (num den : Nat) : Nat := (num / den).log2 - 52

/-- What is rounded to a whole number of steps is a multiple of a power of two,
`2 ^ grain num den`. -/
theorem magnitude_of_roundUnits {negative : Bool} {num den : Nat} {x : Binary64}
    (h : roundUnits negative num den = some x) :
    x.magnitude = roundDiv num (den <<< grain num den) <<< grain num den := by
  unfold grain
  unfold roundUnits at h
  simp only at h
  split at h
  · next hs =>
    have hstep : (1 <<< 52) <<< 1 = 1 <<< 53 := by decide
    rw [magnitude_of_ofParts? h, hs, Nat.add_comm, Nat.shiftLeft_add, hstep]
  · exact magnitude_of_ofParts? h

theorem isIntegral_iff {x : Binary64} : x.isIntegral ↔ unit ∣ x.magnitude := by
  rw [isIntegral, beq_iff_eq, Nat.dvd_iff_mod_eq_zero]

/-- **The number nearest to a whole one is whole**: `ofInt?` never leaves a fraction. -/
theorem isIntegral_of_ofInt? {n : Int} {x : Binary64} (h : ofInt? n = some x) :
    x.isIntegral := by
  have he := magnitude_of_roundUnits h
  generalize grain (n.natAbs * unit) 1 = e at he
  rw [isIntegral_iff, he]
  rcases Nat.le_total e 1074 with hle | hle
  · -- the steps are fine enough to be exact
    have hdvd : 1 <<< e ∣ n.natAbs * unit := (one_shiftLeft_dvd hle).mul_left _
    rw [roundDiv_shiftLeft_of_dvd hdvd]
    exact Dvd.intro_left _ rfl
  · rw [Nat.shiftLeft_eq (roundDiv _ _), ← Nat.one_shiftLeft]
    exact (one_shiftLeft_dvd hle).mul_left _

theorem isIntegral_congr {x y : Binary64} (h : x.units = y.units) :
    x.isIntegral = y.isIntegral := by
  rw [isIntegral, isIntegral, magnitude_eq_natAbs_units, magnitude_eq_natAbs_units, h]

end Binary64

namespace Number

theorem same_int_float (n : Int) (x : Binary64) : (int n).same (float x) = false := by
  by_cases hx : x.isZero <;> simp [same, canonical, hx]

theorem sameValue_eq (a b : Number) : a.sameValue b =
    (a.same b || a.toBinary64?.any fun x => b.toBinary64?.any x.same) := by
  rw [sameValue]
  generalize a.toBinary64? = x
  generalize b.toBinary64? = y
  cases x <;> cases y <;> rfl

/-- A number that agrees with a whole one is whole. -/
theorem isIntegral_of_sameValue {n : Int} {b : Number} (h : (int n).sameValue b) :
    b.isIntegral := by
  cases b with
  | int m => rfl
  | float x =>
    rw [sameValue_eq, same_int_float, Bool.false_or, Option.any_eq_true] at h
    obtain ⟨y, hn, hyx⟩ := h
    have hunits : y.units = x.units := by simpa [toBinary64?, Binary64.same] using hyx
    rw [isIntegral, ← Binary64.isIntegral_congr hunits]
    exact Binary64.isIntegral_of_ofInt? hn

end Number

end JsonShape
