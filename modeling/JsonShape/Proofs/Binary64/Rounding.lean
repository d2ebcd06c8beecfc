import JsonShape.Proofs.Binary64.Integral

/-!
# Rounding to the nearest number

Rounding does not cross a floating-point number: where the exact value lies on one side of it, or on
it, so does the rounded one (`magnitude_le_of_roundUnits`, `le_magnitude_of_roundUnits`). Around the
exact value the numbers of the chosen exponent are whole multiples of one power of two, as greater
numbers are, and all others are smaller than these (`magnitude_cases`).

For whole numbers the rounded value is given outright. Numbers of at most 53 bits are kept, and any
other one becomes the nearest multiple of its `spacing`, a tie going to the even multiple
(`nearest`, `units_of_ofInt?`).
-/

namespace JsonShape

namespace Binary64

variable {n d c q num den : Nat} {negative : Bool} {x y : Binary64}

/-! ## Rounded quotients -/

theorem roundDiv_cases (n : Nat) (hd : 0 < d) :
    roundDiv n d = n / d ∨ roundDiv n d = n / d + 1 ∧ 0 < n % d := by
  unfold roundDiv
  dsimp only
  split
  · exact Or.inl rfl
  · split
    · exact Or.inr ⟨rfl, by omega⟩
    · split
      · exact Or.inl rfl
      · exact Or.inr ⟨rfl, by omega⟩

/-- A rounded quotient is at most `q` where the exact one is. -/
theorem roundDiv_le (hd : 0 < d) (h : n ≤ q * d) : roundDiv n d ≤ q := by
  have hle : n / d ≤ q := Nat.div_le_of_le_mul (Nat.mul_comm q d ▸ h)
  rcases roundDiv_cases n hd with hr | ⟨hr, hmod⟩
  · omega
  · -- the exact quotient is not whole, so it lies below
    have hne : n / d ≠ q := by
      rintro rfl
      have hdiv := Nat.div_add_mod n d
      rw [Nat.mul_comm] at hdiv
      omega
    omega

theorem le_roundDiv (hd : 0 < d) (h : q * d ≤ n) : q ≤ roundDiv n d := by
  have hle : q ≤ n / d := (Nat.le_div_iff_mul_le hd).2 h
  rcases roundDiv_cases n hd with hr | ⟨hr, -⟩ <;> omega

/-- A common factor does not count. -/
theorem roundDiv_mul_mul_right (n d : Nat) (hc : 0 < c) :
    roundDiv (n * c) (d * c) = roundDiv n d := by
  have hless : 2 * (n % d * c) < d * c ↔ 2 * (n % d) < d := by
    rw [← Nat.mul_assoc]
    exact Nat.mul_lt_mul_right hc
  have hmore : d * c < 2 * (n % d * c) ↔ d < 2 * (n % d) := by
    rw [← Nat.mul_assoc]
    exact Nat.mul_lt_mul_right hc
  simp only [roundDiv, Nat.mul_div_mul_right _ _ hc, Nat.mul_mod_mul_right, hless, hmore]

/-! ## Rounding and the floating-point numbers around -/

theorem lt_of_grain (hden : 0 < den) : num < 2 ^ 53 * 2 ^ grain num den * den := by
  have hlog : num / den < 2 ^ (53 + grain num den) := by
    refine Nat.lt_of_lt_of_le Nat.lt_log2_self (Nat.pow_le_pow_right (by omega) ?_)
    unfold grain
    omega
  rw [← Nat.pow_add]
  exact (Nat.div_lt_iff_lt_mul hden).1 hlog

theorem le_of_grain (hden : 0 < den) (h : 0 < grain num den) :
    2 ^ 52 * 2 ^ grain num den * den ≤ num := by
  have hlog : (num / den).log2 = 52 + grain num den := by
    unfold grain at h ⊢
    omega
  have hne : num / den ≠ 0 := by
    intro hzero
    rw [hzero, Nat.log2_zero] at hlog
    omega
  have hpow := Nat.log2_self_le hne
  rw [hlog, Nat.pow_add] at hpow
  exact (Nat.le_div_iff_mul_le hden).1 hpow

theorem magnitude_eq (x : Binary64) : x.magnitude = x.significand * 2 ^ x.exponent :=
  Nat.shiftLeft_eq _ _

/-- Against `2 ^ e`, a number is a whole multiple of it or lies below every multiple of full
precision. -/
theorem magnitude_cases (x : Binary64) (e : Nat) :
    (∃ q, x.magnitude = q * 2 ^ e) ∨ 0 < e ∧ x.magnitude < 2 ^ 52 * 2 ^ e := by
  rw [magnitude_eq]
  rcases Nat.lt_or_ge x.exponent e with he | he
  · have hlt : x.significand < 2 ^ 53 := Nat.one_shiftLeft 53 ▸ x.canonical.1
    refine Or.inr ⟨Nat.zero_lt_of_lt he, ?_⟩
    calc x.significand * 2 ^ x.exponent
      _ < 2 ^ 53 * 2 ^ x.exponent := Nat.mul_lt_mul_of_pos_right hlt (Nat.two_pow_pos _)
      _ = 2 ^ (53 + x.exponent) := (Nat.pow_add ..).symm
      _ ≤ 2 ^ (52 + e) := Nat.pow_le_pow_right (by omega) (by omega)
      _ = 2 ^ 52 * 2 ^ e := Nat.pow_add ..
  · refine Or.inl ⟨x.significand * 2 ^ (x.exponent - e), ?_⟩
    rw [Nat.mul_assoc, ← Nat.pow_add, Nat.sub_add_cancel he]

theorem negative_of_ofParts? {significand exponent : Nat}
    (h : ofParts? negative significand exponent = some x) : x.negative = negative := by
  unfold ofParts? at h
  split at h
  · rw [← Option.some.inj h]
  · cases h

theorem negative_of_roundUnits (h : roundUnits negative num den = some x) :
    x.negative = negative := by
  unfold roundUnits at h
  dsimp only at h
  split at h
  · exact negative_of_ofParts? h
  · exact negative_of_ofParts? h

theorem magnitude_eq_of_roundUnits (h : roundUnits negative num den = some x) :
    x.magnitude = roundDiv num (2 ^ grain num den * den) * 2 ^ grain num den := by
  rw [magnitude_of_roundUnits h, Nat.shiftLeft_eq, Nat.shiftLeft_eq, Nat.mul_comm den]

/-- **Rounding does not cross a number above**: a quotient that is at most `y` is rounded to one
that is. -/
theorem magnitude_le_of_roundUnits (hden : 0 < den) (h : roundUnits negative num den = some x)
    (hle : num ≤ y.magnitude * den) : x.magnitude ≤ y.magnitude := by
  rw [magnitude_eq_of_roundUnits h]
  have hstep : 0 < 2 ^ grain num den * den := Nat.mul_pos (Nat.two_pow_pos _) hden
  rcases y.magnitude_cases (grain num den) with ⟨q, hq⟩ | ⟨hgrain, hlt⟩
  · rw [hq] at hle ⊢
    rw [Nat.mul_assoc] at hle
    exact Nat.mul_le_mul_right _ (roundDiv_le hstep hle)
  · have hnum := le_of_grain hden hgrain
    have hmul := Nat.mul_lt_mul_of_pos_right hlt hden
    omega

/-- **Rounding does not cross a number below**: a quotient that is at least `y` is rounded to one
that is. -/
theorem le_magnitude_of_roundUnits (hden : 0 < den) (h : roundUnits negative num den = some x)
    (hle : y.magnitude * den ≤ num) : y.magnitude ≤ x.magnitude := by
  rw [magnitude_eq_of_roundUnits h]
  have hstep : 0 < 2 ^ grain num den * den := Nat.mul_pos (Nat.two_pow_pos _) hden
  rcases y.magnitude_cases (grain num den) with ⟨q, hq⟩ | ⟨hgrain, hlt⟩
  · rw [hq] at hle ⊢
    rw [Nat.mul_assoc] at hle
    exact Nat.mul_le_mul_right _ (le_roundDiv hstep hle)
  · -- the rounded significand has full precision
    have hnum := le_of_grain hden hgrain
    rw [Nat.mul_assoc] at hnum
    have hfull := Nat.mul_le_mul_right (2 ^ grain num den) (le_roundDiv hstep hnum)
    omega

/-- Where the exponent is not too great, there is a rounded number. -/
theorem exists_roundUnits (negative : Bool) (hden : 0 < den) (h : grain num den ≤ 2044) :
    ∃ x, roundUnits negative num den = some x := by
  have hstep : 0 < 2 ^ grain num den * den := Nat.mul_pos (Nat.two_pow_pos _) hden
  have hle : roundDiv num (2 ^ grain num den * den) ≤ 2 ^ 53 := by
    refine roundDiv_le hstep ?_
    rw [← Nat.mul_assoc]
    exact (lt_of_grain hden).le
  have hfull : 2 ^ 52 ≤ roundDiv num (2 ^ grain num den * den) ∨ grain num den = 0 := by
    refine (Nat.eq_zero_or_pos (grain num den)).symm.imp_left fun hgrain => ?_
    have hnum := le_of_grain hden hgrain
    rw [Nat.mul_assoc] at hnum
    exact le_roundDiv hstep hnum
  have hdef : roundUnits negative num den =
      if roundDiv num (den <<< grain num den) = 1 <<< 53 then
        ofParts? negative (1 <<< 52) (grain num den + 1)
      else ofParts? negative (roundDiv num (den <<< grain num den)) (grain num den) := rfl
  rw [hdef, Nat.shiftLeft_eq, Nat.mul_comm den]
  simp only [Nat.one_shiftLeft]
  split
  · refine ⟨⟨negative, 2 ^ 52, grain num den + 1, ?_⟩, dif_pos ?_⟩ <;>
      simp only [Nat.one_shiftLeft] <;> omega
  · refine ⟨⟨negative, _, grain num den, ?_⟩, dif_pos ?_⟩ <;>
      simp only [Nat.one_shiftLeft] <;> omega

/-! ## Whole numbers -/

/-- The distance of neighbouring floating-point numbers from `m` on, but at least one. -/
def spacing (m : Nat) : Nat := 1 <<< (m.log2 - 52)

/-- The whole number that the floating-point number nearest to `n` stands for. Up to `2 ^ 53`, it is
`n`. -/
def nearest (n : Int) : Int :=
  let rounded : Nat := roundDiv n.natAbs (spacing n.natAbs) * spacing n.natAbs
  if n < 0 then -rounded else rounded

theorem one_shiftLeft_pos (k : Nat) : 0 < 1 <<< k := Nat.one_shiftLeft k ▸ Nat.two_pow_pos k

theorem spacing_pos (m : Nat) : 0 < spacing m := one_shiftLeft_pos _

theorem unit_pos : 0 < unit := one_shiftLeft_pos _

theorem int_unit_pos : (0 : Int) < unit := Int.ofNat_lt.2 unit_pos

theorem mul_unit_lt {n m : Int} : n * unit < m * unit ↔ n < m := Int.mul_lt_mul_right int_unit_pos

theorem mul_unit_inj {n m : Int} : n * unit = m * unit ↔ n = m :=
  Int.mul_eq_mul_right_iff int_unit_pos.ne'

theorem log2_mul_one_shiftLeft {m : Nat} (hm : m ≠ 0) (k : Nat) :
    (m * 1 <<< k).log2 = m.log2 + k := by
  have hpos := Nat.two_pow_pos k
  rw [Nat.one_shiftLeft, Nat.log2_eq_iff (Nat.mul_ne_zero hm hpos.ne')]
  constructor
  · rw [Nat.pow_add]
    exact Nat.mul_le_mul_right _ (Nat.log2_self_le hm)
  · rw [Nat.add_right_comm, Nat.pow_add]
    exact Nat.mul_lt_mul_of_pos_right Nat.lt_log2_self hpos

theorem one_shiftLeft_add (j k : Nat) : 1 <<< (j + k) = 1 <<< j * 1 <<< k := by
  rw [Nat.shiftLeft_add, Nat.shiftLeft_eq (1 <<< j), ← Nat.one_shiftLeft]

/-- A whole number becomes the nearest multiple of its spacing. -/
theorem magnitude_of_ofInt? {n : Int} (h : ofInt? n = some x) :
    x.magnitude = roundDiv n.natAbs (spacing n.natAbs) * spacing n.natAbs * unit := by
  generalize hm : n.natAbs = m
  have hx := magnitude_of_roundUnits h
  rw [hm] at hx
  rw [hx]
  rcases Nat.lt_or_ge m.log2 52 with hlog | hlog
  · -- at most 52 bits: both roundings are exact
    have hspacing : spacing m = 1 := by
      rw [spacing, Nat.sub_eq_zero_of_le hlog.le]
      rfl
    have hgrain : grain (m * unit) 1 ≤ 1074 := by
      rcases Nat.eq_zero_or_pos m with rfl | hpos
      · rw [Nat.zero_mul]
        decide
      · rw [grain, Nat.div_one, unit, log2_mul_one_shiftLeft hpos.ne']
        omega
    have hdvd : 1 <<< grain (m * unit) 1 ∣ m * unit := (one_shiftLeft_dvd hgrain).mul_left m
    have hone : roundDiv m 1 = m := by simpa using roundDiv_mul_of_dvd Nat.one_pos (one_dvd m)
    rw [hspacing, Nat.mul_one, roundDiv_shiftLeft_of_dvd hdvd, hone]
  · have hne : m ≠ 0 := by
      rintro rfl
      rw [Nat.log2_zero] at hlog
      omega
    have hgrain : grain (m * unit) 1 = (m.log2 - 52) + 1074 := by
      rw [grain, Nat.div_one, unit, log2_mul_one_shiftLeft hne]
      omega
    rw [hgrain, Nat.shiftLeft_eq (roundDiv _ _), ← Nat.one_shiftLeft, one_shiftLeft_add, ← spacing,
      ← unit, roundDiv_mul_mul_right _ _ unit_pos, Nat.mul_assoc]

/-- The value of the floating-point number nearest to a whole number. -/
theorem units_of_ofInt? {n : Int} (h : ofInt? n = some x) : x.units = nearest n * unit := by
  have hmagnitude := magnitude_of_ofInt? h
  unfold units nearest
  rw [negative_of_roundUnits h, hmagnitude]
  by_cases hn : n < 0 <;> simp [hn]

/-- A whole number of 64 bits, or their least upper bound, has a nearest floating-point number. -/
theorem exists_ofInt? {n : Int} (h : n.natAbs ≤ 2 ^ 64) : ∃ x, ofInt? n = some x := by
  refine exists_roundUnits _ Nat.one_pos ?_
  rcases Nat.eq_zero_or_pos n.natAbs with hn | hn
  · rw [hn, Nat.zero_mul]
    decide
  · have hlog : n.natAbs.log2 < 65 := (Nat.log2_lt hn.ne').2 (by omega)
    rw [grain, Nat.div_one, unit, log2_mul_one_shiftLeft hn.ne']
    omega

/-- What is known of the sizes and signs of a whole number and its rounded value. -/
theorem ofInt?_cases {n : Int} (h : ofInt? n = some x) (y : Binary64) :
    ((n * unit).natAbs ≤ y.magnitude → x.magnitude ≤ y.magnitude) ∧
      (y.magnitude ≤ (n * unit).natAbs → y.magnitude ≤ x.magnitude) ∧
      x.units = if n * unit < 0 then -(x.magnitude : Int) else x.magnitude := by
  have hunit := int_unit_pos
  have habs : (n * unit).natAbs = n.natAbs * unit * 1 := by simp [Int.natAbs_mul]
  rw [habs]
  refine ⟨fun hle => ?_, fun hle => ?_, ?_⟩
  · exact magnitude_le_of_roundUnits Nat.one_pos h (by omega)
  · exact le_magnitude_of_roundUnits Nat.one_pos h (by omega)
  · have hneg : n * unit < 0 ↔ n < 0 := by
      rw [Int.mul_neg_iff]
      omega
    rw [units, negative_of_roundUnits h]
    simp [hneg]

/-- A whole number at most as great as a floating-point number is rounded to no greater one. -/
theorem units_le_of_ofInt? {n : Int} (h : ofInt? n = some x) (hle : n * unit ≤ y.units) :
    x.units ≤ y.units := by
  obtain ⟨hfrom, hto, hx⟩ := ofInt?_cases h y
  have hy := y.magnitude_eq_natAbs_units
  split at hx <;> omega

/-- A whole number at least as great as a floating-point number is rounded to no smaller one. -/
theorem le_units_of_ofInt? {n : Int} (h : ofInt? n = some x) (hle : y.units ≤ n * unit) :
    y.units ≤ x.units := by
  obtain ⟨hfrom, hto, hx⟩ := ofInt?_cases h y
  have hy := y.magnitude_eq_natAbs_units
  split at hx <;> omega

/-! ## Whole numbers that are kept -/

theorem nearest_zero : nearest 0 = 0 := by decide

@[simp] theorem nearest_neg (n : Int) : nearest (-n) = -nearest n := by
  rcases Int.lt_trichotomy n 0 with hn | rfl | hn
  · simp [nearest, Int.natAbs_neg, hn, hn.not_gt]
  · rw [Int.neg_zero, nearest_zero, Int.neg_zero]
  · simp [nearest, Int.natAbs_neg, hn, hn.not_gt]

theorem spacing_dvd_nearest (n : Int) : (spacing n.natAbs : Int) ∣ nearest n := by
  unfold nearest
  split <;> simp

/-- The multiples of their `spacing` are kept, and no others. -/
theorem nearest_eq_self_iff {n : Int} : nearest n = n ↔ (spacing n.natAbs : Int) ∣ n := by
  constructor
  · intro h
    have hdvd := spacing_dvd_nearest n
    rwa [h] at hdvd
  · intro h
    have hexact := roundDiv_mul_of_dvd (spacing_pos n.natAbs) (Int.natCast_dvd.1 h)
    rw [nearest, hexact]
    split <;> omega

/-- Whole numbers of at most 53 bits are kept. -/
theorem nearest_of_le {n : Int} (h : n.natAbs ≤ 2 ^ 53) : nearest n = n := by
  rw [nearest_eq_self_iff, Int.natCast_dvd]
  rcases Nat.lt_or_eq_of_le h with hlt | heq
  · have hlog : n.natAbs.log2 - 52 = 0 := by
      rcases Nat.eq_zero_or_pos n.natAbs with hn | hn
      · rw [hn, Nat.log2_zero]
      · have := (Nat.log2_lt hn.ne').2 hlt
        omega
    rw [spacing, hlog]
    exact one_dvd _
  · rw [heq]
    decide

/-- Rounding does not cross a whole number that is kept. -/
theorem nearest_le {n k : Int} (hn : n.natAbs ≤ 2 ^ 64) (hk : k.natAbs ≤ 2 ^ 64)
    (hkept : nearest k = k) (h : n ≤ k) : nearest n ≤ k := by
  obtain ⟨x, hx⟩ := exists_ofInt? hn
  obtain ⟨y, hy⟩ := exists_ofInt? hk
  have hunits : y.units = k * unit := by rw [units_of_ofInt? hy, hkept]
  have hle : n * unit ≤ y.units := hunits ▸ Int.mul_le_mul_of_nonneg_right h int_unit_pos.le
  have hround := units_le_of_ofInt? hx hle
  rw [units_of_ofInt? hx, hunits] at hround
  exact Int.le_of_mul_le_mul_right hround int_unit_pos

theorem le_nearest {n k : Int} (hn : n.natAbs ≤ 2 ^ 64) (hk : k.natAbs ≤ 2 ^ 64)
    (hkept : nearest k = k) (h : k ≤ n) : k ≤ nearest n := by
  have hneg : nearest (-k) = -k := by rw [nearest_neg, hkept]
  have hle := nearest_le (by omega : (-n).natAbs ≤ 2 ^ 64) (by omega) hneg (by omega)
  rw [nearest_neg] at hle
  omega

/-- Nothing else is rounded to a whole number of absolute value below `2 ^ 53`. -/
theorem nearest_eq_iff {n m : Int} (hn : n.natAbs < 2 ^ 53) (hm : m.natAbs ≤ 2 ^ 64) :
    nearest m = nearest n ↔ m = n := by
  have hkept : ∀ k : Int, k.natAbs ≤ 2 ^ 53 → nearest k = k := fun _ => nearest_of_le
  constructor
  · intro h
    rw [hkept n hn.le] at h
    rcases Int.lt_trichotomy m n with hlt | heq | hgt
    · have hle : nearest m ≤ n - 1 := nearest_le hm (by omega) (hkept _ (by omega)) (by omega)
      omega
    · exact heq
    · have hge : n + 1 ≤ nearest m := le_nearest hm (by omega) (hkept _ (by omega)) (by omega)
      omega
  · rintro rfl
    rfl

end Binary64

end JsonShape
