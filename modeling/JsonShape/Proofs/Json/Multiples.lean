import JsonShape.Proofs.Json.Number

/-!
# Multiples of whole factors

Whether a whole factor divides a whole number is asked in two ways. Signed numbers and factors of
their range are divided as machine numbers. There is no remainder where the quotient is out of
range, and the factor divides then (`isMultipleOf_eq_remainder`). Greater numbers and factors are
compared as floating-point numbers, exactly, but after the number has been rounded.

The answer is right with two exceptions. The factor `2 ^ 63` is no signed number and is taken for
the greatest of them (`isMultipleOf_signed`), and numbers beyond the signed range are changed by
rounding if they are no multiples of 2048 (`isMultipleOf_unsigned`,
`nearest_eq_self_iff_of_unsigned`).
-/

namespace JsonShape

namespace Binary64

variable {x y : Binary64}

/-- The whole part of `x` as a signed machine number. What is out of range becomes an end of the
range. -/
def toInt64 (x : Binary64) : Int64 :=
  .ofInt (max Number.leastInt (min x.truncate Number.greatestSigned))

theorem units_ne_zero (h : x.isZero = false) : x.units ≠ 0 := by
  intro hunits
  have hmagnitude : x.significand * 2 ^ x.exponent = 0 := by
    rw [← magnitude_eq, magnitude_eq_natAbs_units, hunits, Int.natAbs_zero]
  rcases Nat.mul_eq_zero.1 hmagnitude with hzero | hzero
  · simp [isZero, hzero] at h
  · exact absurd hzero (Nat.two_pow_pos _).ne'

/-- Division of floating-point numbers is division of their exact values, counted in `units`. -/
theorem divides_iff : x.divides y ↔ x.isZero = false ∧ x.units ∣ y.units := by
  rw [divides, Bool.and_eq_true, Bool.not_eq_true', beq_iff_eq, ← Nat.dvd_iff_mod_eq_zero,
    magnitude_eq_natAbs_units, magnitude_eq_natAbs_units, Int.natAbs_dvd_natAbs]

theorem truncate_ne_zero (hzero : x.isZero = false) (hwhole : x.isIntegral) : x.truncate ≠ 0 := by
  intro h
  have hunits := units_eq_truncate hwhole
  rw [h, Int.zero_mul] at hunits
  exact units_ne_zero hzero hunits

/-- A whole number divides another one as floating-point numbers if it does so as whole numbers. -/
theorem divides_iff_of_units {n : Int} (hzero : x.isZero = false) (hwhole : x.isIntegral)
    (hy : y.units = n * unit) : x.divides y ↔ x.truncate ∣ n := by
  rw [divides_iff, units_eq_truncate hwhole, hy, Int.mul_dvd_mul_iff_right int_unit_pos.ne']
  exact and_iff_right hzero

end Binary64

namespace Number

open Binary64 (nearest nearest_le le_nearest)

variable {n : Int} {factor : Binary64}

/-! ## Rounding beyond the signed range -/

theorem natAbs_nearest_le (h : n.natAbs ≤ 2 ^ 63) : (nearest n).natAbs ≤ 2 ^ 63 := by
  have hle : nearest n ≤ 2 ^ 63 := nearest_le (by omega) (by decide) (by decide) (by omega)
  have hge : -2 ^ 63 ≤ nearest n := le_nearest (by omega) (by decide) (by decide) (by omega)
  omega

/-- Beyond the signed range, the multiples of 2048 are kept. -/
theorem nearest_eq_self_iff_of_unsigned (hkept : (int n).Kept) (hn : 2 ^ 63 ≤ n) :
    nearest n = n ↔ 2048 ∣ n := by
  have hle := hkept.2
  unfold greatestInt at hle
  have hlog : n.natAbs.log2 = 63 := by
    rw [Nat.log2_eq_iff (by omega)]
    omega
  rw [Binary64.nearest_eq_self_iff, Binary64.spacing, hlog]
  exact Iff.rfl

/-! ## Multiples -/

/-- The value of a factor as a machine number: only `2 ^ 63` is beyond the range, and becomes
`2 ^ 63 - 1`. -/
theorem min_greatestSigned (factor : Binary64) (hfactor : factor.truncate.natAbs ≤ 2 ^ 63) :
    min factor.truncate greatestSigned =
      if factor.truncate = 2 ^ 63 then 2 ^ 63 - 1 else factor.truncate := by
  unfold greatestSigned
  split <;> omega

/-- A signed number, and a factor of that range, which is taken for a signed one: `2 ^ 63` is taken
for `greatestSigned`. -/
theorem isMultipleOf_machine (hzero : factor.isZero = false) (hwhole : factor.isIntegral)
    (hn : n < 2 ^ 63) (hfactor : factor.truncate.natAbs ≤ 2 ^ 63) :
    (int n).isMultipleOf factor ↔ min factor.truncate greatestSigned ∣ n := by
  have hsigned : n ≤ greatestSigned := Int.le_of_lt_add_one hn
  rw [isMultipleOf, if_neg (by simp [hzero]), if_pos ⟨hsigned, hwhole, hfactor⟩,
    decide_eq_true_iff, ← Int.dvd_iff_emod_eq_zero]

/-- All others are compared after the number has been rounded to `nearest n`. -/
theorem isMultipleOf_rounded (hzero : factor.isZero = false) (hwhole : factor.isIntegral)
    (hkept : (int n).Kept) (h : 2 ^ 63 ≤ n ∨ 2 ^ 63 < factor.truncate.natAbs) :
    (int n).isMultipleOf factor ↔ factor.truncate ∣ nearest n := by
  obtain ⟨x, hx, hunits⟩ := toBinary64?_int hkept
  have hnot : ¬(n ≤ greatestSigned ∧ factor.isIntegral ∧
      factor.truncate.natAbs ≤ 0x8000000000000000) := by
    rintro ⟨hn, -, hfactor⟩
    unfold greatestSigned at hn
    omega
  have hround : Binary64.ofInt? n = some x := hx
  rw [isMultipleOf, if_neg (by simp [hzero]), if_neg hnot, hround, Option.any_some]
  exact Binary64.divides_iff_of_units hzero hwhole hunits

/-- **Signed numbers are divided exactly**, but for the factor `2 ^ 63`, of which the multiples are
taken to be those of `2 ^ 63 - 1`. -/
theorem isMultipleOf_signed (hzero : factor.isZero = false) (hwhole : factor.isIntegral)
    (hkept : (int n).Kept) (hn : n < 2 ^ 63) : (int n).isMultipleOf factor ↔
      (if factor.truncate = 2 ^ 63 then 2 ^ 63 - 1 else factor.truncate) ∣ n := by
  rcases Nat.lt_or_ge (2 ^ 63) factor.truncate.natAbs with hfactor | hfactor
  · -- a factor beyond the range divides zero only, rounded or not
    have hne : factor.truncate ≠ 2 ^ 63 := by
      omega
    have hnatAbs : n.natAbs ≤ 2 ^ 63 := by
      have hge := hkept.1
      unfold leastInt at hge
      omega
    have hdvd_iff : ∀ k : Int, k.natAbs ≤ 2 ^ 63 → (factor.truncate ∣ k ↔ k = 0) := by
      intro k hk
      refine ⟨fun hdvd => Int.eq_zero_of_dvd_of_natAbs_lt_natAbs hdvd (by omega), ?_⟩
      rintro rfl
      exact dvd_zero _
    have hzero_iff : nearest n = nearest 0 ↔ n = 0 :=
      Binary64.nearest_eq_iff (by decide) (by omega)
    rw [isMultipleOf_rounded hzero hwhole hkept (.inr hfactor), if_neg hne,
      hdvd_iff _ (natAbs_nearest_le hnatAbs), hdvd_iff _ hnatAbs, ← hzero_iff,
      Binary64.nearest_zero]
  · rw [isMultipleOf_machine hzero hwhole hn hfactor, min_greatestSigned factor hfactor]

/-- Numbers beyond the signed range are divided after they have been rounded. -/
theorem isMultipleOf_unsigned (hzero : factor.isZero = false) (hwhole : factor.isIntegral)
    (hkept : (int n).Kept) (hn : 2 ^ 63 ≤ n) :
    (int n).isMultipleOf factor ↔ factor.truncate ∣ nearest n :=
  isMultipleOf_rounded hzero hwhole hkept (.inl hn)

/-! ## Remainders of machine numbers -/

/-- The remainder of signed machine numbers. There is none by zero, and none of `-2 ^ 63` by `-1`,
where the quotient is out of range. -/
def remainder? (n d : Int64) : Option Int64 :=
  if d = 0 ∨ n = .minValue ∧ d = -1 then none else some (n % d)

/-- A divisor divides a number if the remainder is zero, and where the quotient is out of range. -/
theorem remainder?_all {n d : Int64} (hd : d ≠ 0) :
    (remainder? n d).all (· == 0) ↔ d.toInt ∣ n.toInt := by
  unfold remainder?
  split
  · next h =>
    obtain ⟨rfl, rfl⟩ := h.resolve_left hd
    decide
  · rw [Option.all_some, beq_iff_eq, ← Int64.toInt_inj, Int64.toInt_mod, Int.dvd_iff_tmod_eq_zero]
    exact Iff.rfl

/-- **Signed numbers are divided as machine numbers**, by a factor that is not zero as a machine
number either. So `remainder?` answers nothing only where the quotient is out of range, and this
counts as divided. -/
theorem isMultipleOf_eq_remainder (hzero : factor.isZero = false) (hwhole : factor.isIntegral)
    (hkept : (int n).Kept) (hn : n < 2 ^ 63) (hfactor : factor.truncate.natAbs ≤ 2 ^ 63) :
    factor.toInt64 ≠ 0 ∧
      (int n).isMultipleOf factor = (remainder? (.ofInt n) factor.toInt64).all (· == 0) := by
  have hne := Binary64.truncate_ne_zero hzero hwhole
  have hlow : -2 ^ 63 ≤ n := hkept.1
  have htoInt : factor.toInt64.toInt = min factor.truncate greatestSigned := by
    rw [Binary64.toInt64, Int64.toInt_ofInt_of_le] <;> simp only [leastInt, greatestSigned] <;>
      omega
  have hdivisor : factor.toInt64 ≠ 0 := by
    intro h
    rw [h, Int64.toInt_zero, greatestSigned] at htoInt
    omega
  refine ⟨hdivisor, ?_⟩
  rw [Bool.eq_iff_iff, isMultipleOf_machine hzero hwhole hn hfactor, remainder?_all hdivisor,
    htoInt, Int64.toInt_ofInt_of_le hlow hn]

end Number

end JsonShape
