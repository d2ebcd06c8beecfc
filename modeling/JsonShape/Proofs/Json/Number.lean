import JsonShape.Proofs.Binary64.Rounding

/-!
# Exact values of JSON numbers

Whole numbers and floating-point numbers of a document have exact values on one scale
(`Number.units`). Where numbers are compared, they are rounded to floating-point numbers first.
Where a bound is documented, the greatest of the signed whole numbers stands for `2 ^ 63`. A number
that is rounded to one side of a bound lies on that side of the documented bound
(`units_plain_lt`, `lt_units_plain`), so the two can differ only about what is rounded onto it.
-/

namespace JsonShape

namespace Binary64

variable {x : Binary64}

theorem natAbs_units (x : Binary64) : x.units.natAbs = x.magnitude :=
  x.magnitude_eq_natAbs_units.symm

/-- The value of a whole floating-point number. -/
theorem units_eq_truncate (h : x.isIntegral) : x.units = x.truncate * unit := by
  have hdvd : (unit : Int) ∣ x.units := by
    rw [Int.natCast_dvd, natAbs_units]
    exact isIntegral_iff.1 h
  exact (Int.tdiv_mul_cancel hdvd).symm

theorem truncate_eq_of_units {n : Int} (h : x.units = n * unit) : x.truncate = n := by
  rw [truncate, h, Int.mul_tdiv_cancel _ int_unit_pos.ne']

theorem isIntegral_of_units {n : Int} (h : x.units = n * unit) : x.isIntegral := by
  rw [isIntegral_iff, ← natAbs_units, h, Int.natAbs_mul]
  exact Dvd.intro_left _ rfl

end Binary64

namespace Number

open Binary64 (unit nearest)

variable {n : Number} {x y : Binary64}

/-- The greatest whole number that is kept exactly, `2 ^ 64 - 1`. -/
def greatestInt : Int := 0xffffffffffffffff

/-- A number as a document has it: a whole number is one of those that are kept exactly, which are
those from `leastInt` to `greatestInt`. -/
def Kept : Number → Prop
  | int n => leastInt ≤ n ∧ n ≤ greatestInt
  | float _ => True

instance : DecidablePred Kept
  | int n => inferInstanceAs (Decidable (leastInt ≤ n ∧ n ≤ greatestInt))
  | float _ => isTrue trivial

/-- The exact value in steps of `2 ^ (-1074)`. -/
def units : Number → Int
  | int n => n * unit
  | float x => x.units

/-! ## Rounded numbers -/

theorem Kept.natAbs_le {k : Int} (h : (int k).Kept) : k.natAbs ≤ 2 ^ 64 := by
  simp only [Kept, leastInt, greatestInt] at h
  omega

/-- What a whole number is rounded to: `nearest k`. -/
theorem toBinary64?_int {k : Int} (h : (int k).Kept) :
    ∃ x, (int k).toBinary64? = some x ∧ x.units = nearest k * unit := by
  obtain ⟨x, hx⟩ := Binary64.exists_ofInt? h.natAbs_le
  exact ⟨x, hx, Binary64.units_of_ofInt? hx⟩

theorem exists_toBinary64? (h : n.Kept) : ∃ x, n.toBinary64? = some x := by
  cases n with
  | int k =>
    obtain ⟨x, hx, -⟩ := toBinary64?_int h
    exact ⟨x, hx⟩
  | float x => exact ⟨x, rfl⟩

/-- Rounding crosses no floating-point number above. -/
theorem units_le_of_toBinary64? (hx : n.toBinary64? = some x) (h : n.units ≤ y.units) :
    x.units ≤ y.units := by
  cases n with
  | int k => exact Binary64.units_le_of_ofInt? hx h
  | float z => exact Option.some.inj hx ▸ h

/-- Rounding crosses no floating-point number below. -/
theorem le_units_of_toBinary64? (hx : n.toBinary64? = some x) (h : y.units ≤ n.units) :
    y.units ≤ x.units := by
  cases n with
  | int k => exact Binary64.le_units_of_ofInt? hx h
  | float z => exact Option.some.inj hx ▸ h

/-! ## Documented numbers -/

/-- What is documented has the value that it is meant to have, but for `2 ^ 63`. -/
theorem units_plain (h : x.units ≠ (greatestSigned + 1) * unit) : (plain x).units = x.units := by
  unfold plain
  split
  · next hx =>
    obtain ⟨hwhole, -, hle⟩ := hx
    have hne : x.truncate ≠ greatestSigned + 1 := by
      intro heq
      rw [Binary64.units_eq_truncate hwhole, heq] at h
      exact h rfl
    rw [units, Int.min_eq_left (by omega), Binary64.units_eq_truncate hwhole]
  · rfl

theorem plain_of_units (h : x.units = (greatestSigned + 1) * unit) :
    plain x = int greatestSigned := by
  have htruncate := Binary64.truncate_eq_of_units h
  rw [plain, if_pos ⟨Binary64.isIntegral_of_units h, by rw [htruncate]; decide, htruncate.le⟩,
    htruncate]
  rfl

/-- What is documented of a whole bound: its value, but for `2 ^ 63`. -/
theorem plain_whole {x : Binary64} (h : x.isIntegral) :
    (x.truncate ≠ 2 ^ 63 → (plain x).units = x.truncate * unit) ∧
      (x.truncate = 2 ^ 63 → plain x = .int (2 ^ 63 - 1)) := by
  have hunits := Binary64.units_eq_truncate h
  refine ⟨fun hne => ?_, fun heq => ?_⟩
  · rw [← hunits]
    refine units_plain fun htop => hne ?_
    rw [hunits] at htop
    exact Binary64.mul_unit_inj.1 htop
  · rw [heq] at hunits
    exact plain_of_units hunits

/-- A number that is rounded to more than the bound `y` lies above the documented bound,
`plain y`. -/
theorem units_plain_lt (hx : n.toBinary64? = some x) (h : y.units < x.units) :
    (plain y).units < n.units := by
  have hlt : y.units < n.units := by
    by_contra hle
    have := units_le_of_toBinary64? hx (not_lt.1 hle)
    omega
  by_cases hy : y.units = (greatestSigned + 1) * unit
  · rw [plain_of_units hy, units]
    have hunit := Binary64.unit_pos
    rw [hy, Int.add_mul] at hlt
    omega
  · rwa [units_plain hy]

theorem nearest_greatestSigned : nearest greatestSigned = greatestSigned + 1 := by decide

/-- The greatest signed whole number and greater numbers are rounded to no less than `2 ^ 63`. -/
theorem le_units_of_greatestSigned (hx : n.toBinary64? = some x)
    (hy : y.units = (greatestSigned + 1) * unit) (h : greatestSigned * unit ≤ n.units) :
    y.units ≤ x.units := by
  obtain ⟨z, hz, hunits⟩ : ∃ z, Binary64.ofInt? greatestSigned = some z ∧ z.units = y.units := by
    obtain ⟨z, hz, hunits⟩ := toBinary64?_int (k := greatestSigned) (by decide)
    exact ⟨z, hz, by rw [hunits, nearest_greatestSigned, hy]⟩
  cases n with
  | float w =>
    obtain rfl := Option.some.inj hx
    exact hunits ▸ Binary64.units_le_of_ofInt? hz h
  | int k =>
    have hk : greatestSigned ≤ k := Int.le_of_mul_le_mul_right h (Int.ofNat_lt.2 Binary64.unit_pos)
    rcases hk.eq_or_lt with rfl | hlt
    · obtain rfl := Option.some.inj (hz.symm.trans hx)
      exact hunits.ge
    · refine le_units_of_toBinary64? hx ?_
      rw [hy]
      exact Int.mul_le_mul_of_nonneg_right hlt (Int.natCast_nonneg _)

/-- A number that is rounded to less than the bound `y` lies below the documented bound,
`plain y`. -/
theorem lt_units_plain (hx : n.toBinary64? = some x) (h : x.units < y.units) :
    n.units < (plain y).units := by
  by_contra hle
  suffices y.units ≤ x.units by omega
  by_cases hy : y.units = (greatestSigned + 1) * unit
  · rw [plain_of_units hy] at hle
    exact le_units_of_greatestSigned hx hy (not_lt.1 hle)
  · rw [units_plain hy] at hle
    exact le_units_of_toBinary64? hx (not_lt.1 hle)

end Number

end JsonShape
