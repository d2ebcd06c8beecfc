import JsonShape.Proofs.Input.Components
import JsonShape.Proofs.Input.Limit
import JsonShape.Proofs.Json.Number
import JsonShape.Regex.Pattern

/-!
# Documented ranges

A number may be put into several intervals, one after another, with other refinements in between. A
value has to lie in all of them. The documentation keeps one bound for each side: that of the last
interval that has one there. The mark of a bound that is excluded is set by every interval that
excludes its bound, and never taken back.

So what is documented is right but for numbers that are rounded onto the last bound, where this one
is included (`Input.Ranged.documented_iff`).

* `Side` makes one statement of what holds of both sides of an interval.
* `Fragment.Ends` says which bounds a fragment documents.
-/

namespace JsonShape

/-! ## The two sides of an interval -/

namespace Endpoint

/-- The bound of an end. -/
def bound? : Endpoint → Option Binary64
  | unbounded => none
  | included x | excluded x => some x

/-- Whether an end excludes its bound. -/
def isStrict : Endpoint → Bool
  | excluded _ => true
  | _ => false

/-- The first of `ends` that has a bound, or `unbounded` if none has. -/
def first (ends : List Endpoint) : Endpoint :=
  (ends.find? fun e => e.bound?.isSome).getD .unbounded

theorem bound?_first_cons (e : Endpoint) (ends : List Endpoint) :
    (first (e :: ends)).bound? = e.bound?.or (first ends).bound? := by
  cases e <;> simp [first, bound?]

theorem bound?_first_singleton (e : Endpoint) : (first [e]).bound? = e.bound? := by
  cases e <;> rfl

end Endpoint

/-- A side of an interval. -/
inductive Side
  | lower
  | upper

namespace Side

/-- The end of an interval on this side. -/
def endpoint : Side → Interval → Endpoint
  | lower, i => i.lower
  | upper, i => i.upper

/-- The keyword of the bound. -/
def boundKey : Side → String
  | lower => "minimum"
  | upper => "maximum"

/-- The keyword that says that the bound is excluded. -/
def strictKey : Side → String
  | lower => "exclusiveMinimum"
  | upper => "exclusiveMaximum"

/-- The value lies strictly inside of `bound`: above it on the `lower` side, below it on the `upper`
one. -/
def Inside : Side → (bound value : Int) → Prop
  | lower, bound, value => bound < value
  | upper, bound, value => value < bound

theorem Inside.ne {side : Side} {a b : Int} (h : side.Inside a b) : a ≠ b := by
  cases side with
  | lower => exact Int.ne_of_lt h
  | upper => exact Int.ne_of_gt h

/-- Either `b` is strictly inside of `a`, or the same, or `a` is of `b`; where they are the same,
`P` decides. -/
theorem inside_or_eq_iff (side : Side) (a b : Int) (P : Prop) :
    side.Inside a b ∨ a = b ∧ P ↔ ¬(side.Inside b a ∨ b = a ∧ ¬P) := by
  by_cases hP : P <;> cases side <;> simp only [Inside, hP, and_true, and_false, not_true_eq_false,
    not_false_eq_true, or_false] <;> omega

/-- `value`, in steps of `2 ^ (-1074)`, meets an end: it lies inside of the bound, or on a bound
that is `included`. -/
def Meets (side : Side) (value : Int) : Endpoint → Prop
  | .unbounded => True
  | .included x => side.Inside x.units value ∨ x.units = value
  | .excluded x => side.Inside x.units value

/-- `n` meets the bound that `f` documents under `side.boundKey`, if there is one. It may lie on the
bound unless `side.strictKey` is `true`. -/
def Documents (side : Side) (f : Json) (n : Number) : Prop :=
  ∀ b, f.get? side.boundKey = some (.number b) → side.Inside b.units n.units ∨
    b.units = n.units ∧ f.get? side.strictKey ≠ some (.bool true)

end Side

/-- `x` lies in the interval `i` if it meets both ends of `i`. -/
theorem Interval.contains_iff (i : Interval) (x : Binary64) :
    i.contains x ↔ ∀ side : Side, side.Meets x.units (side.endpoint i) := by
  have hlower : above x i.lower ↔ Side.lower.Meets x.units i.lower := by
    cases i.lower with
    | unbounded => simp [above, Side.Meets]
    | included y =>
      simp only [above, Side.Meets, Side.Inside, Binary64.le, decide_eq_true_eq]
      omega
    | excluded y => simp [above, Side.Meets, Side.Inside, Binary64.lt]
  have hupper : below x i.upper ↔ Side.upper.Meets x.units i.upper := by
    cases i.upper with
    | unbounded => simp [below, Side.Meets]
    | included y =>
      simp only [below, Side.Meets, Side.Inside, Binary64.le, decide_eq_true_eq]
      omega
    | excluded y => simp [below, Side.Meets, Side.Inside, Binary64.lt]
  rw [contains, Bool.and_eq_true, hlower, hupper]
  constructor
  · rintro ⟨h, h'⟩ (_ | _)
    · exact h
    · exact h'
  · exact fun h => ⟨h .lower, h .upper⟩

/-- If `n` is rounded to `x`, and `x` lies strictly inside of the bound `y`, then `n` lies inside of
`Number.plain y`, the bound as it is documented. -/
theorem Side.inside_plain {side : Side} {n : Number} {x y : Binary64}
    (hx : n.toBinary64? = some x) (h : side.Inside y.units x.units) :
    side.Inside (Number.plain y).units n.units := by
  cases side with
  | lower => exact Number.units_plain_lt hx h
  | upper => exact Number.lt_units_plain hx h

/-! ## Documented ends -/

namespace Fragment

variable {f arg : Json} {ks extra : Dict Json} {key : String}

/-- The fragment `f` is no reference and documents the ends of `intervals`, the last one first: each
bound is that of `Endpoint.first`, and it is marked as excluded if any interval excludes its own. -/
structure Ends (f : Json) (intervals : List Interval) : Prop where
  object : ∃ ks : Dict Json, f = .object ks ∧ ks.get? refKey = none
  bound : ∀ side : Side, f.get? side.boundKey =
    (Endpoint.first (intervals.map side.endpoint)).bound?.map fun x => .number (.plain x)
  strict : ∀ side : Side, f.get? side.strictKey =
    if (intervals.map side.endpoint).any Endpoint.isStrict then some (.bool true) else none

/-- Keywords of `extra` that are added to a fragment that is no reference count before its own
keywords `ks`. -/
theorem exists_merge (hks : ks.get? refKey = none) (hextra : extra.names.Nodup) :
    ∃ ls : Dict Json, merge (.object ks) extra = .object ls ∧
      ∀ key, ls.get? key = (extra.get? key).or (ks.get? key) := by
  unfold merge
  split
  · next hempty =>
    rw [List.isEmpty_iff.1 hempty]
    exact ⟨ks, rfl, fun _ => rfl⟩
  · simp only [Dict.contains, hks, Option.isSome_none, Bool.false_eq_true, if_false]
    exact ⟨_, rfl, Dict.get?_extend_of_nodup hextra ks⟩

variable {intervals : List Interval}

theorem nodup_keywords (i : Interval) : i.keywords.names.Nodup := by
  obtain ⟨lower, upper⟩ := i
  cases lower <;> cases upper <;> simp [Interval.keywords, Interval.endKeywords]

theorem get?_keywords_boundKey (i : Interval) (side : Side) : i.keywords.get? side.boundKey =
    (side.endpoint i).bound?.map fun x => .number (.plain x) := by
  obtain ⟨lower, upper⟩ := i
  cases side <;> cases lower <;> cases upper <;> rfl

theorem get?_keywords_strictKey (i : Interval) (side : Side) : i.keywords.get? side.strictKey =
    if (side.endpoint i).isStrict then some (.bool true) else none := by
  obtain ⟨lower, upper⟩ := i
  cases side <;> cases lower <;> cases upper <;> rfl

theorem ends_typed (name : String) : Ends (.object [("type", .string name)]) [] where
  object := ⟨_, rfl, rfl⟩
  bound side := by cases side <;> rfl
  strict side := by cases side <;> rfl

/-- The keywords of an interval `i` go over those of `intervals` that are documented already. -/
theorem Ends.merge (h : Ends f intervals) (i : Interval) :
    Ends (merge f i.keywords) (i :: intervals) := by
  obtain ⟨⟨ks, rfl, hks⟩, hbound, hstrict⟩ := h
  obtain ⟨ls, hmerge, hls⟩ := exists_merge hks (nodup_keywords i)
  have href : i.keywords.get? refKey = none :=
    Dict.get?_eq_none_iff.2 (remarks_keywords i refKey (.head _))
  rw [hmerge]
  constructor
  · exact ⟨ls, rfl, by rw [hls, href, hks, Option.none_or]⟩
  · intro side
    show ls.get? side.boundKey = _
    rw [hls, get?_keywords_boundKey, List.map_cons, Endpoint.bound?_first_cons, Option.map_or]
    exact congrArg _ (hbound side)
  · intro side
    show ls.get? side.strictKey = _
    have hother : ks.get? side.strictKey = _ := hstrict side
    rw [hls, get?_keywords_strictKey, hother, List.map_cons, List.any_cons]
    cases (side.endpoint i).isStrict <;> simp

/-- Other keywords leave the ends as they are. -/
theorem Ends.mergeOne (h : Ends f intervals) (href : key ≠ refKey)
    (hkey : ∀ side : Side, key ≠ side.boundKey ∧ key ≠ side.strictKey) :
    Ends (mergeOne f key arg) intervals := by
  obtain ⟨⟨ks, rfl, hks⟩, hbound, hstrict⟩ := h
  have hnodup : (Dict.names [(key, arg)]).Nodup := List.nodup_singleton _
  obtain ⟨ls, hmerge, hls⟩ := exists_merge hks hnodup
  have hother : ∀ k, key ≠ k → ls.get? k = ks.get? k := by
    intro k hk
    rw [hls, Dict.get?, if_neg hk, Dict.get?_nil, Option.none_or]
  rw [Fragment.mergeOne, hmerge]
  constructor
  · exact ⟨ls, rfl, (hother _ href).trans hks⟩
  · intro side
    exact (hother _ (hkey side).1).trans (hbound side)
  · intro side
    exact (hother _ (hkey side).2).trans (hstrict side)

end Fragment

/-! ## Stacks of intervals -/

namespace Input

variable [Regex.Engine] {i : Input} {intervals : List Interval} {n : Number} {v w : Json}
  {deferred : String → Json → Outcome}

/-- `Ranged i intervals` says that `i` takes numbers and puts them into `intervals`, the last one
first, with other refinements and descriptions in between. -/
inductive Ranged : Input → List Interval → Prop
  | number : Ranged .number []
  | integer : Ranged .integer []
  | inRange {i : Input} {intervals : List Interval} (h : Ranged i intervals)
    (interval : Interval) : Ranged (.inRange i interval) (interval :: intervals)
  | described {i : Input} {intervals : List Interval} (h : Ranged i intervals) (text : String) :
    Ranged (.described i text) intervals
  | pattern {i : Input} {intervals : List Interval} (h : Ranged i intervals) (regex : Regex) :
    Ranged (.pattern i regex) intervals
  | multipleOf {i : Input} {intervals : List Interval} (h : Ranged i intervals)
    (factor : Binary64) : Ranged (.multipleOf i factor) intervals

/-- The documentation of `i` documents the ends of its `intervals`. -/
theorem Ranged.ends (h : Ranged i intervals) (documented : String → Doc Input) :
    Fragment.Ends (docWith documented i).fragment intervals := by
  induction h with
  | number => exact Fragment.ends_typed "number"
  | integer => exact Fragment.ends_typed "integer"
  | inRange _ interval ih => exact ih.merge interval
  | described _ _ ih | pattern _ _ ih | multipleOf _ _ ih =>
    refine ih.mergeOne (by simp [Fragment.refKey]) fun side => ?_
    cases side <;> simp [Side.boundKey, Side.strictKey]

theorem Ranged.ends_doc (h : Ranged i intervals) (defs : Dict Input) :
    Fragment.Ends (doc defs i).fragment intervals := by
  rw [doc, docAt_eq]
  exact h.ends _

/-- A value `v` that is accepted comes back as it is, and lies in all of `intervals`. -/
theorem Ranged.of_callWith (h : Ranged i intervals)
    (hcall : callWith deferred i v = some (.ok w)) :
    w = v ∧ ∀ interval ∈ intervals, liesIn interval v := by
  induction h with
  | number | integer =>
    exact ⟨(Checked.check_eq_ok.1 (Option.some.inj hcall)).2, fun _ h => absurd h List.not_mem_nil⟩
  | inRange _ interval ih =>
    obtain ⟨hinner, hlies⟩ := callWith_inRange_eq_ok.1 hcall
    obtain ⟨rfl, hall⟩ := ih hinner
    exact ⟨rfl, List.forall_mem_cons.2 ⟨hlies, hall⟩⟩
  | described _ _ ih => exact ih hcall
  | pattern _ _ ih => exact ih (callWith_pattern_eq_ok.1 hcall).1
  | multipleOf _ _ ih => exact ih (callWith_multipleOf_eq_ok.1 hcall).1

omit [Regex.Engine] in
/-- If `x` lies in all `intervals`, it meets the bound of the last one that has a bound on this
side. -/
theorem meets_first {x : Binary64} (h : ∀ interval ∈ intervals, interval.contains x) (side : Side) :
    side.Meets x.units (Endpoint.first (intervals.map side.endpoint)) := by
  unfold Endpoint.first
  cases hfind : (intervals.map side.endpoint).find? fun e => e.bound?.isSome with
  | none => trivial
  | some e =>
    obtain ⟨interval, hmem, rfl⟩ := List.mem_map.1 (List.mem_of_find?_eq_some hfind)
    exact (interval.contains_iff x).1 (h interval hmem) side

omit [Regex.Engine] in
/-- What `side.Documents f n` says, where `f` documents the ends of `intervals`: `n` lies inside of
the last bound `y`, or on it while no interval excludes its own bound. -/
theorem documents_iff {f : Json} (hf : Fragment.Ends f intervals) (side : Side) :
    side.Documents f n ↔ ∀ y, (Endpoint.first (intervals.map side.endpoint)).bound? = some y →
      side.Inside (Number.plain y).units n.units ∨ (Number.plain y).units = n.units ∧
        ∀ interval ∈ intervals, (side.endpoint interval).isStrict = false := by
  have hstrict : f.get? side.strictKey ≠ some (.bool true) ↔
      ∀ interval ∈ intervals, (side.endpoint interval).isStrict = false := by
    rw [hf.strict]
    simp
  unfold Side.Documents
  rw [hf.bound, hstrict]
  constructor
  · intro h y hy
    exact h _ (by rw [hy]; rfl)
  · intro h b hb
    obtain ⟨y, hy, hyb⟩ := Option.map_eq_some_iff.1 hb
    injection hyb with hyb
    exact hyb ▸ h y hy

/-- **What a stack of intervals documents is right but for numbers that are rounded onto a bound.**
Let `n` be accepted by `i`, which puts it into `intervals`, and let `x` be what it is rounded to. On
each `side`, `n` lies within what `doc defs i` documents (`side.Documents`), unless `x` is the last
bound `y` of the side, and `y` is `included`, and either `n` lies outside of `Number.plain y`, the
bound as it is written, or `n` lies on it while some interval of the stack excludes its own bound
(`isStrict`). So with numbers that are not changed by rounding and bounds other than `2 ^ 63` there
has to be an interval that excludes its bound, below one that includes its own. -/
theorem Ranged.documented_iff (h : Ranged i intervals) (defs : Dict Input) (hn : n.Kept)
    (hcall : call defs i (.number n) = some (.ok w)) :
    w = .number n ∧ ∃ x, n.toBinary64? = some x ∧ ∀ side : Side,
      (side.Documents (doc defs i).fragment n ↔
        ¬∃ y, Endpoint.first (intervals.map side.endpoint) = .included y ∧ y.units = x.units ∧
          (side.Inside n.units (Number.plain y).units ∨ n.units = (Number.plain y).units ∧
            ∃ interval ∈ intervals, (side.endpoint interval).isStrict)) := by
  obtain ⟨x, hx⟩ := Number.exists_toBinary64? hn
  rw [call_eq] at hcall
  obtain ⟨hw, hall⟩ := h.of_callWith hcall
  have hcontains : ∀ interval ∈ intervals, interval.contains x := by
    intro interval hmem
    have hlies := hall interval hmem
    rwa [liesIn, hx, Option.all_some] at hlies
  refine ⟨hw, x, hx, fun side => ?_⟩
  rw [documents_iff (h.ends_doc defs)]
  have hmeets := meets_first hcontains side
  cases hfirst : Endpoint.first (intervals.map side.endpoint) with
  | unbounded => simp [Endpoint.bound?]
  | excluded y =>
    rw [hfirst] at hmeets
    simp [Endpoint.bound?, Side.inside_plain hx hmeets]
  | included y =>
    rw [hfirst] at hmeets
    rcases hmeets with hinside | heq
    · -- rounded to a value off the bound
      simp [Endpoint.bound?, Side.inside_plain hx hinside, hinside.ne]
    · -- rounded onto the bound, as it is before it is written
      have hstrict : (∀ interval ∈ intervals, (side.endpoint interval).isStrict = false) ↔
          ¬∃ interval ∈ intervals, (side.endpoint interval).isStrict := by simp
      simp only [Endpoint.bound?, Option.some.injEq, forall_eq', Endpoint.included.injEq,
        exists_eq_left', heq, true_and]
      rw [side.inside_or_eq_iff, hstrict, not_not]

end Input

namespace Input

attribute [local instance] Regex.Engine.standard

/-- The score `7`, above zero, and then from four to eight: both documented bounds hold of it. -/
theorem Ranged.documented_iff_score :
    let four : Binary64 := ⟨false, 1 <<< 52, 1024, by decide⟩
    let eight : Binary64 := ⟨false, 1 <<< 52, 1025, by decide⟩
    let score : Input := .inRange (.described (.inRange .integer ⟨.excluded .zero, .unbounded⟩)
      "points") ⟨.included four, .included eight⟩
    call [] score (.number (.int 7)) = some (.ok (.number (.int 7))) ∧
      ∀ side : Side, side.Documents (doc [] score).fragment (.int 7) := by
  intro four eight score
  have hranged : Ranged score [⟨.included four, .included eight⟩, ⟨.excluded .zero, .unbounded⟩] :=
    .inRange (.described (.inRange .integer _) _) _
  have hcall : call [] score (.number (.int 7)) = some (.ok (.number (.int 7))) := by
    rw [call_eq]
    exact callWith_inRange_eq_ok.2
      ⟨callWith_inRange_eq_ok.2 ⟨rfl, by decide +kernel⟩, by decide +kernel⟩
  obtain ⟨-, x, hx, hdocuments⟩ := hranged.documented_iff [] (by decide) hcall
  refine ⟨hcall, fun side => (hdocuments side).2 ?_⟩
  rintro ⟨y, hy, hunits, -⟩
  have hseven : x.units = 7 * Binary64.unit := Binary64.units_of_ofInt? hx
  rw [hseven] at hunits
  cases side with
  | lower =>
    obtain rfl := Endpoint.included.inj hy
    exact absurd hunits (by decide)
  | upper =>
    obtain rfl := Endpoint.included.inj hy
    exact absurd hunits (by decide)

/-- Numbers above zero, and then from `four` on: four is accepted, and documented as excluded. -/
theorem Ranged.undocumented_bound :
    let four : Binary64 := ⟨false, 1 <<< 52, 1024, by decide⟩
    let stack : Input := .inRange (.inRange .number ⟨.excluded .zero, .unbounded⟩)
      ⟨.included four, .unbounded⟩
    (doc [] stack).fragment = .object [("type", .string "number"), ("minimum", .number (.int 4)),
      ("exclusiveMinimum", .bool true)] ∧
    call [] stack (.number (.int 4)) = some (.ok (.number (.int 4))) ∧
      ¬Side.lower.Documents (doc [] stack).fragment (.int 4) := by
  intro four stack
  have hfragment : (doc [] stack).fragment = .object [("type", .string "number"),
      ("minimum", .number (.int 4)), ("exclusiveMinimum", .bool true)] := by
    decide +kernel
  have hcall : call [] stack (.number (.int 4)) = some (.ok (.number (.int 4))) := by
    rw [call_eq]
    exact callWith_inRange_eq_ok.2
      ⟨callWith_inRange_eq_ok.2 ⟨rfl, by decide +kernel⟩, by decide +kernel⟩
  refine ⟨hfragment, hcall, fun h => ?_⟩
  rw [hfragment] at h
  rcases h (.int 4) rfl with hinside | ⟨-, hstrict⟩
  · exact absurd hinside (lt_irrefl _)
  · exact hstrict rfl

end Input

end JsonShape
