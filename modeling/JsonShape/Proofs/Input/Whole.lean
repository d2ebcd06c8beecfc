import JsonShape.Proofs.Input.Ranges
import JsonShape.Proofs.Json.Multiples
import JsonShape.Regex.Pattern

/-!
# Refinements of whole numbers

Which whole numbers are accepted by a whole factor, an enumeration of whole numbers and an interval
with whole ends (`Input.multipleOf_whole`, `Input.enum_whole`, `Input.inRange_whole`). Signed
numbers are divided as they are. All other comparisons are of floating-point numbers, so they are
right for whole numbers that are kept when they are rounded, as those up to `2 ^ 53` are, and beyond
that they confuse numbers that are rounded alike.

* `Input.Decides` says that a shape accepts a value as it is or reports it with one message.
* `Interval.Spans` is what it means for a whole number to lie between whole ends.
-/

namespace JsonShape

open Binary64 (unit nearest)

/-! ## Whole ends -/

namespace Side

/-- A whole number meets an end that is whole. -/
def Spans (side : Side) (n : Int) : Endpoint → Prop
  | .unbounded => True
  | .included x => side.Inside x.truncate n ∨ x.truncate = n
  | .excluded x => side.Inside x.truncate n

theorem inside_mul_unit (side : Side) (a b : Int) :
    side.Inside (a * unit) (b * unit) ↔ side.Inside a b := by
  cases side with
  | lower => exact Binary64.mul_unit_lt
  | upper => exact Binary64.mul_unit_lt

/-- Between whole numbers, exact values are compared as the numbers are: `n * unit` meets the end
`e` if `n` does. -/
theorem meets_iff_spans (side : Side) (n : Int) {e : Endpoint}
    (h : ∀ x, e.bound? = some x → x.isIntegral) : side.Meets (n * unit) e ↔ side.Spans n e := by
  cases e with
  | unbounded => exact Iff.rfl
  | included x =>
    rw [Meets, Spans, Binary64.units_eq_truncate (h x rfl), inside_mul_unit,
      Binary64.mul_unit_inj]
  | excluded x =>
    rw [Meets, Spans, Binary64.units_eq_truncate (h x rfl), inside_mul_unit]

/-- Rounding `n` to `x` changes whether it meets the end `e` only if `x` is the bound of `e` and `n`
is not. -/
theorem meets_rounded (side : Side) {n : Number} {x : Binary64} (hx : n.toBinary64? = some x)
    {e : Endpoint} (h : ∀ y, e.bound? = some y → y.units = x.units → n.units = x.units) :
    side.Meets x.units e ↔ side.Meets n.units e := by
  have habove : ∀ y : Binary64, n.units ≤ y.units → x.units ≤ y.units := fun _ =>
    Number.units_le_of_toBinary64? hx
  have hbelow : ∀ y : Binary64, y.units ≤ n.units → y.units ≤ x.units := fun _ =>
    Number.le_units_of_toBinary64? hx
  cases e with
  | unbounded => exact Iff.rfl
  | included y | excluded y =>
    have hy := h y rfl
    have := habove y
    have := hbelow y
    cases side <;> simp only [Meets, Inside] <;> omega

end Side

namespace Interval

/-- Both ends are whole, if they are there. -/
def Whole (i : Interval) : Prop :=
  ∀ (side : Side) (x : Binary64), (side.endpoint i).bound? = some x → x.isIntegral

/-- A whole number lies between ends that are whole. -/
def Spans (i : Interval) (n : Int) : Prop := ∀ side : Side, side.Spans n (side.endpoint i)

end Interval

namespace Input

variable {members : List Int} {n : Int}

/-! ## Tests that are decided -/

section Decides

variable [Regex.Engine] {defs : Dict Input} {i : Input} {v : Json} {message : String} {P Q : Prop}

/-- `i` accepts `v` as it is where `P` is true, and otherwise reports it with `message`. -/
structure Decides (defs : Dict Input) (i : Input) (v : Json) (message : String) (P : Prop) :
    Prop where
  ok : P → call defs i v = some (.ok v)
  error : ¬P → call defs i v = some (.error (.message message))

theorem Decides.congr (h : Decides defs i v message P) (hiff : P ↔ Q) :
    Decides defs i v message Q :=
  propext hiff ▸ h

theorem Decides.iff (hP : Decides defs i v message P) (hQ : Decides defs i v message Q) :
    P ↔ Q := by
  constructor
  · intro h
    by_contra hnot
    cases (hP.ok h).symm.trans (hQ.error hnot)
  · intro h
    by_contra hnot
    cases (hQ.ok h).symm.trans (hP.error hnot)

/-- A value `v` that is accepted before it is tested is decided by `test`. -/
theorem decides_refine {test : Json → Bool} (h : call defs i v =
    (some (.ok v) : Outcome).bind fun r => some (Checked.refine r test message)) :
    Decides defs i v message (test v) := by
  constructor
  · intro hv
    simp [h, Checked.refine, Checked.check, hv]
  · intro hv
    simp [h, Checked.refine, Checked.check, hv]

end Decides

/-! ## Multiples -/

section Multiples

variable [Regex.Engine]

theorem multipleOf_decides (defs : Dict Input) (n : Int) (factor : Binary64) :
    Decides defs (.multipleOf .number factor) (.number (.int n)) (factorMessage factor)
      ((Number.int n).isMultipleOf factor) := by
  have hcall : call defs (.multipleOf .number factor) (.number (.int n)) =
      (some (.ok (.number (.int n))) : Outcome).bind fun r =>
        some (Checked.refine r (isDivided factor) (factorMessage factor)) := by
    rw [call_eq]
    rfl
  exact decides_refine hcall

/-- **Whole factors divide signed numbers exactly**: `n` is accepted where `factor.truncate` divides
it. The factor `2 ^ 63` is the exception: of the signed numbers, it accepts the multiples of
`2 ^ 63 - 1`, which is wrong for `2 ^ 63 - 1`, its opposite and `-2 ^ 63`. From `2 ^ 63` on,
`nearest n` is divided in place of `n`, which changes nothing for the multiples of 2048. A signed
number and a factor of that range are divided as machine numbers, never by zero, and a number is
accepted where `Number.remainder?` has no result because the quotient is out of range. -/
theorem multipleOf_whole {factor : Binary64} (defs : Dict Input) (hkept : (Number.int n).Kept)
    (hzero : factor.isZero = false) (hwhole : factor.isIntegral) :
    let Accepts := Decides defs (.multipleOf .number factor) (.number (.int n))
      (factorMessage factor)
    (n < 2 ^ 63 →
      (factor.truncate ≠ 2 ^ 63 → Accepts (factor.truncate ∣ n)) ∧
      (factor.truncate = 2 ^ 63 → Accepts (2 ^ 63 - 1 ∣ n) ∧
        (Accepts (factor.truncate ∣ n) ↔ n.natAbs < 2 ^ 63 - 1)) ∧
      (factor.truncate.natAbs ≤ 2 ^ 63 → factor.toInt64 ≠ 0 ∧
        Accepts ((Number.remainder? (.ofInt n) factor.toInt64).all (· == 0)))) ∧
    (2 ^ 63 ≤ n →
      Accepts (factor.truncate ∣ nearest n) ∧ (2048 ∣ n → Accepts (factor.truncate ∣ n))) := by
  intro Accepts
  have hdecides := multipleOf_decides defs n factor
  refine ⟨fun hn => ⟨fun hfactor => ?_, fun hfactor => ?_, fun hfactor => ?_⟩, fun hn => ?_⟩
  · have hsigned := Number.isMultipleOf_signed hzero hwhole hkept hn
    rw [if_neg hfactor] at hsigned
    exact hdecides.congr hsigned
  · have hsigned := Number.isMultipleOf_signed hzero hwhole hkept hn
    rw [if_pos hfactor] at hsigned
    have hmultiples : Accepts (2 ^ 63 - 1 ∣ n) := hdecides.congr hsigned
    refine ⟨hmultiples, ?_⟩
    have hlow : -2 ^ 63 ≤ n := hkept.1
    have hexact : (2 ^ 63 - 1 ∣ n ↔ factor.truncate ∣ n) ↔ n.natAbs < 2 ^ 63 - 1 := by
      rw [hfactor]
      omega
    rw [← hexact]
    exact ⟨fun h => hmultiples.iff h, fun h => hmultiples.congr h⟩
  · obtain ⟨hdivisor, hremainder⟩ :=
      Number.isMultipleOf_eq_remainder hzero hwhole hkept hn hfactor
    exact ⟨hdivisor, hremainder ▸ hdecides⟩
  · have hunsigned := Number.isMultipleOf_unsigned hzero hwhole hkept hn
    refine ⟨hdecides.congr hunsigned, fun hmultiple => ?_⟩
    rw [(Number.nearest_eq_self_iff_of_unsigned hkept hn).2 hmultiple] at hunsigned
    exact hdecides.congr hunsigned

end Multiples

section

attribute [local instance] Regex.Engine.standard

/-- The least signed number and the factor `-1`: the quotient is out of range, and the number is
accepted. -/
theorem multipleOf_whole_least :
    let factor : Binary64 := ⟨true, 1 <<< 52, 1022, by decide⟩
    let least : Json := .number (.int (-2 ^ 63))
    Number.remainder? (.ofInt (-2 ^ 63)) factor.toInt64 = none ∧
      call [] (.multipleOf .number factor) least = some (.ok least) := by
  intro factor least
  have hkept : (Number.int (-2 ^ 63)).Kept := by decide
  have hwhole : factor.isIntegral := by decide
  obtain ⟨hsigned, -⟩ := multipleOf_whole [] hkept (by decide) hwhole
  have haccepts := (hsigned (by decide)).1 (by decide +kernel)
  exact ⟨by decide +kernel, haccepts.ok (by decide +kernel)⟩

/-- A multiple of `2 ^ 63` that is reported, and an odd number that is accepted as a multiple
of two. -/
theorem multipleOf_misjudged :
    let top : Binary64 := ⟨false, 1 <<< 52, 1085, by decide⟩
    let two : Binary64 := ⟨false, 1 <<< 52, 1023, by decide⟩
    let odd : Int := 9223372036854775809
    top.truncate ∣ -2 ^ 63 ∧ call [] (.multipleOf .number top) (.number (.int (-2 ^ 63))) =
        some (.error (.message "must be a multiple of 9223372036854775807")) ∧
      ¬two.truncate ∣ odd ∧ call [] (.multipleOf .number two) (.number (.int odd)) =
        some (.ok (.number (.int odd))) := by
  intro top two odd
  have hmessage : factorMessage top = "must be a multiple of 9223372036854775807" := by
    decide +kernel
  refine ⟨by decide +kernel, ?_, by decide +kernel, ?_⟩
  · rw [← hmessage]
    exact (multipleOf_decides [] _ top).error (by decide +kernel)
  · exact (multipleOf_decides [] _ two).ok (by decide +kernel)

end

/-! ## Enumerations -/

/-- Whole numbers `m` and `n` are the same member if `nearest` rounds them to the same number. -/
theorem sameMember_iff {m : Int} (hm : (Number.int m).Kept) (hn : (Number.int n).Kept) :
    Json.sameMember (.number (.int m)) (.number (.int n)) ↔ nearest m = nearest n := by
  obtain ⟨x, hx, hxunits⟩ := Number.toBinary64?_int hm
  obtain ⟨y, hy, hyunits⟩ := Number.toBinary64?_int hn
  have hsame : x.same y ↔ nearest m = nearest n := by
    rw [Binary64.same, beq_iff_eq, hxunits, hyunits, Binary64.mul_unit_inj]
  have hequal : (Number.int m).same (.int n) ↔ m = n := by
    simp [Number.same, Number.canonical]
  rw [Json.sameMember, Number.sameValue_eq, hx, hy, Option.any_some, Option.any_some,
    Bool.or_eq_true, hsame, hequal]
  refine or_iff_right_of_imp ?_
  rintro rfl
  rfl

section Enumerations

variable [Regex.Engine] {i : Input}

theorem enum_decides (defs : Dict Input) (hi : i = .any ∨ i = .integer) (values : List Json)
    (n : Int) : Decides defs (.enum i values) (.number (.int n)) (enumMessage values)
      (isMember values (.number (.int n))) := by
  refine decides_refine ?_
  rw [call_eq]
  rcases hi with rfl | rfl
  · rfl
  · rfl

/-- **Enumerations of whole numbers accept what is rounded to the same number as a member**: `n` is
accepted if `nearest m = nearest n` for some `m` of `members`. So they are exact for numbers below
`2 ^ 53`, whatever the members are, and beyond it unless `n` is rounded like a member without being
one. -/
theorem enum_whole (defs : Dict Input) (hi : i = .any ∨ i = .integer) (hn : (Number.int n).Kept)
    (hmembers : ∀ m ∈ members, (Number.int m).Kept) :
    let values := members.map fun m => Json.number (.int m)
    let Accepts := Decides defs (.enum i values) (.number (.int n)) (enumMessage values)
    Accepts (∃ m ∈ members, nearest m = nearest n) ∧
      (Accepts (n ∈ members) ↔ (n ∈ members ∨ ∀ m ∈ members, nearest m ≠ nearest n)) ∧
      (n.natAbs < 2 ^ 53 → Accepts (n ∈ members)) := by
  intro values Accepts
  have hmember : isMember values (.number (.int n)) ↔ ∃ m ∈ members, nearest m = nearest n := by
    simp only [isMember, values, List.any_map, List.any_eq_true, Function.comp_apply]
    exact exists_congr fun m => and_congr_right fun hm => sameMember_iff (hmembers m hm) hn
  have hrounded : Accepts (∃ m ∈ members, nearest m = nearest n) :=
    (enum_decides defs hi values n).congr hmember
  have hof_mem : n ∈ members → ∃ m ∈ members, nearest m = nearest n := fun h => ⟨n, h, rfl⟩
  refine ⟨hrounded, ⟨fun h => ?_, fun h => ?_⟩, fun hsmall => ?_⟩
  · have hiff := hrounded.iff h
    by_cases hmem : n ∈ members
    · exact .inl hmem
    · exact .inr fun m hm heq => hmem (hiff.1 ⟨m, hm, heq⟩)
  · refine hrounded.congr ⟨?_, hof_mem⟩
    rintro ⟨m, hm, heq⟩
    exact h.resolve_right fun hnone => hnone m hm heq
  · refine hrounded.congr ⟨?_, hof_mem⟩
    rintro ⟨m, hm, heq⟩
    rwa [← (Binary64.nearest_eq_iff hsmall (hmembers m hm).natAbs_le).1 heq]

end Enumerations

section

attribute [local instance] Regex.Engine.standard

/-- Three is not among one, two and the greatest whole number. -/
theorem enum_whole_three :
    let values : List Json := [.number (.int 1), .number (.int 2),
      .number (.int Number.greatestInt)]
    call [] (.enum .integer values) (.number (.int 3)) =
      some (.error (.message "must be one of: 1, 2, 18446744073709551615")) := by
  intro values
  have hmessage : enumMessage values = "must be one of: 1, 2, 18446744073709551615" := by
    decide +kernel
  have hmembers : ∀ m ∈ [1, 2, Number.greatestInt], (Number.int m).Kept := by decide
  obtain ⟨-, -, hexact⟩ := enum_whole (n := 3) [] (.inr rfl) (by decide) hmembers
  rw [← hmessage]
  exact (hexact (by decide)).error (by decide)

/-- The number after `2 ^ 53`, where only `2 ^ 53` is allowed. -/
theorem enum_misjudged :
    let value : Json := .number (.int 9007199254740993)
    9007199254740993 ∉ ([9007199254740992] : List Int) ∧
      call [] (.enum .any [.number (.int 9007199254740992)]) value = some (.ok value) := by
  intro value
  exact ⟨by decide, (enum_decides [] (.inl rfl) _ _).ok (by decide +kernel)⟩

end

/-! ## Intervals -/

/-- `n` lies in an interval with whole ends if `nearest n`, what it is rounded to, lies between the
ends. -/
theorem liesIn_iff {interval : Interval} (hwhole : interval.Whole) (hn : (Number.int n).Kept) :
    liesIn interval (.number (.int n)) ↔ interval.Spans (nearest n) := by
  obtain ⟨x, hx, hunits⟩ := Number.toBinary64?_int hn
  rw [liesIn, hx, Option.all_some, Interval.contains_iff, hunits]
  exact forall_congr' fun side => side.meets_iff_spans _ (hwhole side)

/-- Rounding `n` changes whether it lies in an interval only if it is rounded onto a bound. -/
theorem spans_nearest {interval : Interval} (hwhole : interval.Whole) (hn : (Number.int n).Kept)
    (h : ∀ (side : Side) (x : Binary64), (side.endpoint interval).bound? = some x →
      x.truncate = nearest n → n = nearest n) :
    interval.Spans (nearest n) ↔ interval.Spans n := by
  obtain ⟨x, hx, hunits⟩ := Number.toBinary64?_int hn
  refine forall_congr' fun side => ?_
  rw [← side.meets_iff_spans _ (hwhole side), ← side.meets_iff_spans _ (hwhole side), ← hunits]
  refine side.meets_rounded hx fun y hy heq => ?_
  have htruncate : y.truncate = nearest n := Binary64.truncate_eq_of_units (heq.trans hunits)
  rw [Number.units, hunits, ← h side y hy htruncate]

/-- `nearest n`, what `n` is rounded to, makes up an interval of its own. -/
theorem exists_point (hn : (Number.int n).Kept) : ∃ interval : Interval, interval.Whole ∧
    ∀ k, interval.Spans k ↔ k = nearest n := by
  obtain ⟨x, -, hunits⟩ := Number.toBinary64?_int hn
  have htruncate := Binary64.truncate_eq_of_units hunits
  refine ⟨⟨.included x, .included x⟩, fun side y hy => ?_, fun k => ?_⟩
  · have hxy : x = y := by
      cases side with
      | lower => exact Option.some.inj hy
      | upper => exact Option.some.inj hy
    exact hxy ▸ Binary64.isIntegral_of_units hunits
  · constructor
    · intro h
      have hlower : x.truncate < k ∨ x.truncate = k := h .lower
      have hupper : k < x.truncate ∨ x.truncate = k := h .upper
      omega
    · rintro rfl side
      cases side with
      | lower => exact Or.inr htruncate
      | upper => exact Or.inr htruncate

section Intervals

variable [Regex.Engine]

theorem inRange_decides (defs : Dict Input) (n : Int) (interval : Interval) :
    Decides defs (.inRange .integer interval) (.number (.int n)) (rangeMessage interval)
      (liesIn interval (.number (.int n))) := by
  refine decides_refine ?_
  rw [call_eq]
  rfl

/-- **Intervals with whole ends are asked about the rounded number**, `nearest n`. So `n` is
accepted where it lies in the interval (`Interval.Spans`), unless it is rounded onto a bound, and
the numbers that rounding keeps are the only ones of which this holds for all intervals. The bounds
are documented under `side.boundKey` with their values, but for `2 ^ 63`, which becomes
`2 ^ 63 - 1`. -/
theorem inRange_whole (defs : Dict Input) (hn : (Number.int n).Kept) :
    let Accepts := fun interval => Decides defs (.inRange .integer interval) (.number (.int n))
      (rangeMessage interval)
    (∀ interval : Interval, interval.Whole →
      Accepts interval (interval.Spans (nearest n)) ∧
      ((∀ (side : Side) (x : Binary64), (side.endpoint interval).bound? = some x →
        x.truncate = nearest n → n = nearest n) → Accepts interval (interval.Spans n)) ∧
      ∀ side : Side, (doc defs (.inRange .integer interval)).fragment.get? side.boundKey =
          (side.endpoint interval).bound?.map (fun x => .number (.plain x)) ∧
        ∀ x, (side.endpoint interval).bound? = some x →
          (x.truncate ≠ 2 ^ 63 → (Number.plain x).units = x.truncate * unit) ∧
          (x.truncate = 2 ^ 63 → Number.plain x = .int (2 ^ 63 - 1))) ∧
    ((∀ interval : Interval, interval.Whole → Accepts interval (interval.Spans n)) ↔
      n = nearest n) := by
  intro Accepts
  have hrounded : ∀ interval : Interval, interval.Whole →
      Accepts interval (interval.Spans (nearest n)) := fun interval hwhole =>
    (inRange_decides defs n interval).congr (liesIn_iff hwhole hn)
  refine ⟨fun interval hwhole => ⟨hrounded interval hwhole, fun h => ?_, fun side => ⟨?_, ?_⟩⟩,
    fun h => ?_, fun h interval hwhole => ?_⟩
  · exact (hrounded interval hwhole).congr (spans_nearest hwhole hn h)
  · have hends := (Ranged.integer.inRange interval).ends_doc defs
    rw [hends.bound, List.map_singleton, Endpoint.bound?_first_singleton]
  · exact fun x hx => Number.plain_whole (hwhole side x hx)
  · obtain ⟨interval, hwhole, hpoint⟩ := exists_point hn
    have hiff := (hrounded interval hwhole).iff (h interval hwhole)
    rw [hpoint, hpoint] at hiff
    exact hiff.1 rfl
  · have hspans : interval.Spans (nearest n) ↔ interval.Spans n := by rw [← h]
    exact (hrounded interval hwhole).congr hspans

end Intervals

section

attribute [local instance] Regex.Engine.standard

/-- Eight is no whole number from zero to below eight, and eight is documented. -/
theorem inRange_whole_eight :
    let eight : Binary64 := ⟨false, 1 <<< 52, 1025, by decide⟩
    let interval : Interval := ⟨.included .zero, .excluded eight⟩
    call [] (.inRange .integer interval) (.number (.int 8)) =
        some (.error (.message "must be in range [0, 8)")) ∧
      (doc [] (.inRange .integer interval)).fragment.get? "maximum" = some (.number (.int 8)) := by
  intro eight interval
  have hmessage : rangeMessage interval = "must be in range [0, 8)" := by
    decide +kernel
  have hwhole : interval.Whole := by
    rintro (_ | _) x hx
    · obtain rfl := Option.some.inj hx
      decide +kernel
    · obtain rfl := Option.some.inj hx
      decide +kernel
  obtain ⟨hall, -⟩ := inRange_whole (n := 8) [] (by decide)
  obtain ⟨-, hexact, hdocumented⟩ := hall interval hwhole
  have hnot : ¬interval.Spans 8 := by
    intro h
    have hupper : (8 : Int) < eight.truncate := h .upper
    exact absurd hupper (by decide +kernel)
  constructor
  · rw [← hmessage]
    exact (hexact fun _ _ _ _ => by decide).error hnot
  · refine (hdocumented .upper).1.trans ?_
    have height : Number.plain eight = .int 8 := by
      decide +kernel
    exact congrArg (fun b => some (Json.number b)) height

/-- The number after `2 ^ 53` is accepted up to this bound, and the bound `2 ^ 63` is documented as
the number before it. -/
theorem inRange_misjudged :
    let bound : Binary64 := ⟨false, 1 <<< 52, 1075, by decide⟩
    let interval : Interval := ⟨.unbounded, .included bound⟩
    let value : Json := .number (.int 9007199254740993)
    let top : Binary64 := ⟨false, 1 <<< 52, 1085, by decide⟩
    ¬interval.Spans 9007199254740993 ∧
      call [] (.inRange .integer interval) value = some (.ok value) ∧
      top.truncate = 2 ^ 63 ∧ (doc [] (.inRange .integer ⟨.unbounded, .included top⟩)).fragment =
        .object [("type", .string "integer"), ("maximum", .number (.int (2 ^ 63 - 1)))] := by
  intro bound interval value top
  refine ⟨fun h => ?_, (inRange_decides [] _ interval).ok (by decide +kernel),
    by decide +kernel, by decide +kernel⟩
  have hupper : 9007199254740993 < bound.truncate ∨ bound.truncate = 9007199254740993 := h .upper
  exact absurd hupper (by decide +kernel)

end

end Input

end JsonShape
