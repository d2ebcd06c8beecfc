import JsonShape.Proofs.Node.Normalize
import Mathlib.Data.List.Basic
import Mathlib.Data.List.Induction

/-!
# Normal forms of unions by their choices

A union may be declared as any nesting of unions. Opened at every depth, it is a list of trees that
are no unions themselves, its choices (`Node.choices`). The normal form of a union is made of the
normal forms of its choices, each of them once (`Node.normalize_by_choices`), so it depends on the
choices and their order only.

The two passes splice unions one level at a time, and the second may turn a union into its single
member. What they agree on is `spliced`: the members of the first pass, each with the members that
the second pass leaves of it. Normal forms are read off that list (`normalize_eq_spliced`), and up
to repetitions it is the list of the normal forms of the choices (`distinct_spliced`).
-/

namespace JsonShape

namespace Node

variable {acc ns : List Node} {n : Node}

/-! ## Choices -/

mutual

/-- The trees that are no unions, met from left to right when every union at the top of a tree, be
it `sum` or `oneOf`, is opened. -/
def choices : Node → List Node
  | .sum left right => choices left ++ choices right
  | .oneOf members => choicesOfMembers members
  | n => [n]

/-- The choices of some trees, one after the other. -/
def choicesOfMembers : List Node → List Node
  | [] => []
  | n :: rest => choices n ++ choicesOfMembers rest

end

@[simp] theorem choices_sum (left right : Node) :
    (sum left right).choices = left.choices ++ right.choices := rfl

@[simp] theorem choices_oneOf (members : List Node) :
    (oneOf members).choices = members.flatMap choices := by
  change choicesOfMembers members = _
  induction members with
  | nil => rfl
  | cons n rest ih => rw [choicesOfMembers, ih, List.flatMap_cons]

/-! ## Different trees -/

theorem distinct_eq_foldl (ns : List Node) : distinct ns = ns.foldl addDistinct [] := rfl

@[simp] theorem distinct_singleton (n : Node) : distinct [n] = [n] := rfl

/-- Trees that are dropped beforehand would be dropped later. -/
theorem foldl_addDistinct_distinct (acc ns : List Node) :
    (distinct ns).foldl addDistinct acc = ns.foldl addDistinct acc :=
  addsNew_addDistinct.foldl_foldl acc ns

theorem distinct_flatMap_distinct (f : Node → List Node) (ns : List Node) :
    distinct (ns.flatMap fun n => distinct (f n)) = distinct (ns.flatMap f) :=
  addsNew_addDistinct.foldl_flatMap [] f ns

theorem distinct_append_congr {as bs as' bs' : List Node} (h : distinct as = distinct as')
    (h' : distinct bs = distinct bs') : distinct (as ++ bs) = distinct (as' ++ bs') := by
  have hsplit : ∀ as bs : List Node, distinct (as ++ bs) =
      (distinct bs).foldl addDistinct (distinct as) := fun as bs => by
    rw [foldl_addDistinct_distinct, distinct_eq_foldl, distinct_eq_foldl, List.foldl_append]
  rw [hsplit, hsplit, h, h']

/-- **Of equal trees the first is kept**, in the order of the list, where `same` says which are
equal. -/
theorem distinct_eq_eraseDupsBy (ns : List Node) : distinct ns = ns.eraseDupsBy same :=
  addsNew_addDistinct.foldl_eq_eraseDupsBy ns

/-! ## Normal forms node by node -/

/-- Whether the tree is a union. -/
def isUnion : Node → Bool
  | .sum .. | .oneOf _ => true
  | _ => false

@[simp] theorem normalize_primitive (leaf : Leaf) (notes : Notes) :
    (primitive leaf notes).normalize = primitive leaf notes := rfl

@[simp] theorem normalize_object (attributes : List (Attribute Node)) :
    (object attributes).normalize = object (attributes.map (Attribute.map normalize)) := by
  have hflatten := transform_object (f := flattenSums) attributes
  rw [normalize, hflatten]
  change (object _).transform dedupOneOf = _
  rw [transform_object, List.map_map]
  rfl

@[simp] theorem normalize_list (item : Node) : (list item).normalize = list item.normalize := rfl

@[simp] theorem normalize_enum (values : List Literal) :
    (enum values).normalize = enum values := rfl

/-- Choices are no unions. -/
theorem isUnion_of_mem_choices (n : Node) : ∀ c ∈ n.choices, c.isUnion = false := by
  induction n with
  | sum left right ihl ihr =>
    rw [choices_sum]
    exact List.forall_mem_append.2 ⟨ihl, ihr⟩
  | oneOf members ih =>
    intro c hc
    rw [choices_oneOf] at hc
    obtain ⟨n, hn, hc⟩ := List.mem_flatMap.1 hc
    exact ih n hn c hc
  | primitive _ _ | object _ _ | list _ _ | enum _ => exact List.forall_mem_singleton.2 rfl

/-- Only unions have other alternatives than themselves. -/
theorem alternatives_eq_singleton (h : n.isUnion = false) : n.alternatives = [n] := by
  cases n with
  | oneOf _ => cases h
  | _ => rfl

/-- The passes leave it to unions to be unions. -/
theorem isUnion_transform (h : n.isUnion = false) :
    (n.transform flattenSums).isUnion = false ∧ n.normalize.isUnion = false := by
  cases n with
  | sum _ _ | oneOf _ => cases h
  | object attributes =>
    rw [normalize_object, transform_object]
    exact ⟨rfl, rfl⟩
  | primitive _ _ | list _ | enum _ => exact ⟨rfl, rfl⟩

/-- Members that are no unions are the members of their union. -/
theorem alternatives_ofAlternatives (h : ∀ n ∈ ns, n.alternatives = [n]) :
    (ofAlternatives ns).alternatives = ns := by
  unfold ofAlternatives
  split
  · exact h _ (.head _)
  · rfl

/-! ## Spliced members -/

/-- The members that the first pass leaves of a tree, each with those that the second leaves of
it. -/
def spliced (n : Node) : List Node :=
  (n.transform flattenSums).alternatives.flatMap fun m => (m.transform dedupOneOf).alternatives

/-- A union after the first pass is that of the spliced members after the second. -/
theorem transform_dedupOneOf_oneOf (members : List Node) :
    (oneOf members).transform dedupOneOf = ofAlternatives (distinct
      (members.flatMap fun m => (m.transform dedupOneOf).alternatives)) := by
  rw [transform_oneOf, dedupOneOf, List.flatMap_map]

/-- A tree that is no union has one member, its normal form. -/
theorem spliced_of_isUnion_eq_false (h : n.isUnion = false) : n.spliced = [n.normalize] := by
  obtain ⟨hflat, hnormal⟩ := isUnion_transform h
  rw [spliced, alternatives_eq_singleton hflat, List.flatMap_singleton]
  exact alternatives_eq_singleton hnormal

/-- The normal form of a tree, from its spliced members. -/
theorem normalize_eq_spliced (n : Node) : n.normalize = ofAlternatives (distinct n.spliced) := by
  cases h : n.isUnion with
  | false =>
    rw [spliced_of_isUnion_eq_false h]
    rfl
  | true =>
    cases n with
    | sum left right => exact transform_dedupOneOf_oneOf _
    | oneOf members =>
      rw [normalize, spliced, transform_oneOf]
      exact transform_dedupOneOf_oneOf _
    | primitive _ _ | object _ | list _ | enum _ => cases h

/-- **The spliced members are the normal forms of the choices**, up to repetitions: the two passes
of `normalize` open a union like `choices` does. -/
theorem distinct_spliced (n : Node) : distinct n.spliced = distinct (n.choices.map normalize) := by
  induction n with
  | sum left right ihl ihr =>
    have hsplit : (sum left right).spliced = left.spliced ++ right.spliced := List.flatMap_append
    rw [hsplit, choices_sum, List.map_append]
    exact distinct_append_congr ihl ihr
  | oneOf members ih =>
    have hsplit : (oneOf members).spliced =
        members.flatMap fun m => m.normalize.alternatives := by
      rw [spliced, transform_oneOf]
      exact List.flatMap_map _ _ _
    have hmember : ∀ m ∈ members,
        m.normalize.alternatives = distinct (m.choices.map normalize) := by
      intro m hm
      rw [normalize_eq_spliced, ih m hm]
      refine alternatives_ofAlternatives fun k hk => ?_
      obtain ⟨c, hc, rfl⟩ := List.mem_map.1 (mem_of_mem_distinct hk)
      have hunion := isUnion_of_mem_choices m c hc
      exact alternatives_eq_singleton (isUnion_transform hunion).2
    rw [hsplit, List.flatMap_congr hmember, distinct_flatMap_distinct, choices_oneOf,
      List.map_flatMap]
  | primitive _ _ | object _ | list _ | enum _ => rw [spliced_of_isUnion_eq_false rfl]; rfl

/-! ## Normal forms of unions -/

/-- A tree has the normal form that its choices make. -/
theorem normalize_eq_ofAlternatives (n : Node) :
    n.normalize = ofAlternatives ((n.choices.map normalize).eraseDupsBy same) := by
  rw [← distinct_eq_eraseDupsBy, ← distinct_spliced, normalize_eq_spliced]

/-- **Unions normalize to their choices.**

* The normal form of a union is that of the normal forms of its `choices`, from left to right, of
  which those that are the `same` as an earlier one are dropped: a single one as it is, and
  otherwise the `oneOf` of all. A tree that is no union is its own choice.
* Any other tree keeps its kind, keys, flags and remarks, and its children are normalized.
* So two nestings of the same choices in the same order have one normal form. -/
theorem normalize_by_choices :
    (∀ n : Node, n.normalize = ofAlternatives ((n.choices.map normalize).eraseDupsBy same)) ∧
      (∀ leaf notes, (primitive leaf notes).normalize = primitive leaf notes) ∧
      (∀ attributes, (object attributes).normalize =
        object (attributes.map (Attribute.map normalize))) ∧
      (∀ item, (list item).normalize = list item.normalize) ∧
      (∀ values, (enum values).normalize = enum values) ∧
      ∀ m n : Node, m.choices = n.choices → m.normalize = n.normalize := by
  refine ⟨normalize_eq_ofAlternatives, normalize_primitive, normalize_object, normalize_list,
    normalize_enum, fun m n h => ?_⟩
  rw [normalize_eq_ofAlternatives, normalize_eq_ofAlternatives, h]

/-- Tags, lists and texts in two nestings. One of the choices is repeated, another one has a union
inside it that has one member in the end. -/
theorem normalize_by_choices_tags :
    let tags : Node := list (sum (reference "Api::Tag") (oneOf [reference "Api::Tag"]))
    let m := sum (sum (scalar .string) tags) (oneOf [scalar .null, scalar .string])
    let n := oneOf [scalar .string,
      sum tags (oneOf [sum (scalar .null) (scalar .string), oneOf []])]
    m.choices = n.choices ∧ m.normalize = n.normalize ∧
      n.normalize = oneOf [scalar .string, list (reference "Api::Tag"), scalar .null] := by
  intro tags m n
  obtain ⟨-, -, -, -, -, hnested⟩ := normalize_by_choices
  have hchoices : m.choices = n.choices := rfl
  exact ⟨hchoices, hnested m n hchoices, by decide⟩

end Node

end JsonShape
