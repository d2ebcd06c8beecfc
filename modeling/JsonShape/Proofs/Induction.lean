import JsonShape.Input.Basic
import JsonShape.Output.Basic
import JsonShape.TypeDef.Basic

/-!
# Induction on trees

The trees of this library hold their children in lists of members. Each has a principle of induction
with one case for each constructor, in which the statement is known of every child in such a list.
-/

namespace JsonShape

@[induction_eliminator]
theorem Json.ind {motive : Json → Prop} (null : motive .null) (bool : ∀ b, motive (.bool b))
    (number : ∀ n, motive (.number n)) (string : ∀ s, motive (.string s))
    (array : ∀ items, (∀ x ∈ items, motive x) → motive (.array items))
    (object : ∀ members, (∀ e ∈ members, motive e.2) → motive (.object members)) (v : Json) :
    motive v :=
  @Json.rec motive (fun xs => ∀ x ∈ xs, motive x) (fun ms => ∀ e ∈ ms, motive e.2)
    (fun e => motive e.2) null bool number string array object
    (List.forall_mem_nil _) (fun _ _ h hs => List.forall_mem_cons.2 ⟨h, hs⟩)
    (List.forall_mem_nil _) (fun _ _ h hs => List.forall_mem_cons.2 ⟨h, hs⟩)
    (fun _ _ h => h) v

@[induction_eliminator]
theorem TypeDef.ind {motive : TypeDef → Prop}
    (struct : ∀ keys, (∀ m ∈ keys, motive m.value) → motive (.struct keys))
    (sum : ∀ left right, motive left → motive right → motive (.sum left right))
    (constrained : ∀ base rules, motive base → motive (.constrained base rules))
    (array : ∀ member, motive member → motive (.array member))
    (enum : ∀ values, motive (.enum values)) (scalar : ∀ s, motive (.scalar s))
    (named : ∀ name, motive (.named name)) (d : TypeDef) : motive d :=
  @TypeDef.rec motive (fun ms => ∀ m ∈ ms, motive m.value) (fun m => motive m.value)
    struct sum constrained array enum scalar named
    (List.forall_mem_nil _) (fun _ _ h hs => List.forall_mem_cons.2 ⟨h, hs⟩)
    (fun _ _ _ _ h => h) d

@[induction_eliminator]
theorem Node.ind {motive : Node → Prop}
    (primitive : ∀ leaf notes, motive (.primitive leaf notes))
    (object : ∀ attributes, (∀ a ∈ attributes, motive a.value) → motive (.object attributes))
    (sum : ∀ left right, motive left → motive right → motive (.sum left right))
    (oneOf : ∀ members, (∀ n ∈ members, motive n) → motive (.oneOf members))
    (list : ∀ item, motive item → motive (.list item))
    (enum : ∀ values, motive (.enum values)) (n : Node) : motive n :=
  @Node.rec motive (fun as => ∀ a ∈ as, motive a.value) (fun ns => ∀ n ∈ ns, motive n)
    (fun a => motive a.value) primitive object sum oneOf list enum
    (List.forall_mem_nil _) (fun _ _ h hs => List.forall_mem_cons.2 ⟨h, hs⟩)
    (List.forall_mem_nil _) (fun _ _ h hs => List.forall_mem_cons.2 ⟨h, hs⟩)
    (fun _ _ _ _ h => h) n

@[induction_eliminator]
theorem Input.ind [Regex.Engine] {motive : Input → Prop} (text : ∀ format, motive (.text format))
    (number : motive .number) (integer : motive .integer) (boolean : motive .boolean)
    (null : motive .null) (any : motive .any)
    (object : ∀ members, (∀ m ∈ members, motive m.value) → motive (.object members))
    (merge : ∀ parent child, motive parent → motive child → motive (.merge parent child))
    (list : ∀ item, motive item → motive (.list item))
    (either : ∀ left right, motive left → motive right → motive (.either left right))
    (optional : ∀ inner, motive inner → motive (.optional inner))
    (enum : ∀ inner values, motive inner → motive (.enum inner values))
    (pattern : ∀ inner regex, motive inner → motive (.pattern inner regex))
    (inRange : ∀ inner interval, motive inner → motive (.inRange inner interval))
    (multipleOf : ∀ inner factor, motive inner → motive (.multipleOf inner factor))
    (mapped : ∀ inner f, motive inner → motive (.mapped inner f))
    (described : ∀ inner text, motive inner → motive (.described inner text))
    (referenced : ∀ inner name, motive inner → motive (.referenced inner name))
    (defer : ∀ name, motive (.defer name)) (i : Input) : motive i :=
  @Input.rec _ motive (fun ms => ∀ m ∈ ms, motive m.value) (fun m => motive m.value)
    text number integer boolean null any object merge list either optional enum pattern inRange
    multipleOf mapped described referenced defer
    (List.forall_mem_nil _) (fun _ _ h hs => List.forall_mem_cons.2 ⟨h, hs⟩)
    (fun _ _ _ _ h => h) i

@[induction_eliminator]
theorem Output.ind {motive : Output → Prop} (text : ∀ format, motive (.text format))
    (number : motive .number) (integer : motive .integer) (boolean : motive .boolean)
    (null : motive .null)
    (object : ∀ properties, (∀ p ∈ properties, motive p.value) → motive (.object properties))
    (merge : ∀ parent child, motive parent → motive child → motive (.merge parent child))
    (list : ∀ item, motive item → motive (.list item))
    (optional : ∀ inner, motive inner → motive (.optional inner))
    (described : ∀ inner text, motive inner → motive (.described inner text))
    (referenced : ∀ inner name, motive inner → motive (.referenced inner name))
    (viaMap : ∀ inner f, motive inner → motive (.viaMap inner f))
    (viewed : ∀ earlier base later, (∀ e ∈ earlier, motive e.2) → motive base →
      (∀ e ∈ later, motive e.2) → motive (.viewed earlier base later))
    (cond : ∀ test holds otherwise, motive holds → motive otherwise →
      motive (.cond test holds otherwise))
    (chain : ∀ base views, motive base → (∀ e ∈ views, motive e.2) → motive (.chain base views))
    (defer : ∀ name base, motive (.defer name base)) (o : Output) : motive o :=
  @Output.rec motive (fun ps => ∀ p ∈ ps, motive p.value) (fun vs => ∀ e ∈ vs, motive e.2)
    (fun p => motive p.value) (fun e => motive e.2)
    text number integer boolean null object merge list optional described referenced viaMap viewed
    cond chain defer
    (List.forall_mem_nil _) (fun _ _ h hs => List.forall_mem_cons.2 ⟨h, hs⟩)
    (List.forall_mem_nil _) (fun _ _ h hs => List.forall_mem_cons.2 ⟨h, hs⟩)
    (fun _ _ _ _ _ h => h) (fun _ _ h => h) o

end JsonShape
