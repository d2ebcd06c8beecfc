import JsonShape.Proofs.Induction
import JsonShape.Proofs.Json.Depth
import JsonShape.Proofs.Members
import JsonShape.TypeDef.Decode

/-!
# Type descriptions round-trip

A type description that is written as JSON reads back as it was: `ofJson_toJson`. What is written
names the kind first and all fields by name, so only one of the forms that are read occurs, and none
of the defaults but that of an absent remark.

The fields of a kind are read with a reader for the descriptions inside, which answers as long as
they nest no deeper than a limit. `decodeAt_toJson` is an induction on that limit; its step is that
each field reads back if the descriptions inside do, `reads_fieldsOf`.

* `literal_ofJson?_toJson`, `readRule_toJson`, `readScalar_tag`, `readKey_writeKey`: the parts.
* `ReadsAs`, `decode_of_reads`: a record that has all its fields is read field by field.
* `Registry.ofMembers_mapValues`: registries, entry by entry.
-/

namespace JsonShape

namespace TypeDef

open Decode

/-! ## Lists -/

/-- A list reads back if its members do. -/
theorem readList_map {α : Type} {write : α → Json} {read : Json → Read α} {xs : List α}
    (h : ∀ x ∈ xs, read (write x) = .ok x) : readList read (.array (xs.map write)) = .ok xs := by
  change (xs.map write).mapM read = .ok xs
  induction xs with
  | nil => rfl
  | cons x rest ih =>
    have hx : read (write x) = .ok x := h x (.head _)
    have hrest := ih fun y hy => h y (.tail _ hy)
    rw [List.map_cons, List.mapM_cons, hx, hrest]
    rfl

/-! ## Literals, rules and basic types -/

/-- Whole numbers of 64 bits read back as such, and floating-point numbers as they are. -/
theorem literal_ofJson?_toJson (l : Literal) : Literal.ofJson? l.toJson = some l := by
  cases l with
  | integer n =>
    have hrange : Number.leastInt ≤ n.toInt ∧ n.toInt ≤ Number.greatestSigned := by
      have hle := Int64.le_toInt n
      have hlt := Int64.toInt_lt n
      unfold Number.leastInt Number.greatestSigned
      omega
    rw [Literal.toJson, Literal.ofJson?, if_pos hrange, Int64.ofInt_toInt]
  | null | bool _ | number _ | string _ => rfl

theorem readLiteral_toJson (l : Literal) : readLiteral l.toJson = .ok l := by
  rw [readLiteral, literal_ofJson?_toJson]

theorem readRule_toJson (c : Constraint) : readRule c.toJson = .ok c := by
  cases c <;> rfl

theorem readScalar_tag (s : Scalar) : readScalar (.string s.tag) = .ok s := by
  cases s <;> rfl

/-! ## Records -/

/-- The members `ms` read as these `parts`, each under its own name. -/
def ReadsAs (read : String → Json → Read Part) (ms : Dict Json) (parts : Dict Part) : Prop :=
  List.Forall₂ (fun e p => p.1 = e.1 ∧ read e.1 e.2 = .ok p.2) ms parts

theorem ReadsAs.names_eq {read : String → Json → Read Part} {ms : Dict Json} {parts : Dict Part}
    (h : ReadsAs read ms parts) : parts.names = ms.names :=
  (map_eq_of_forall₂ h fun _ _ hep => hep.1.symm).symm

/-- Where no field is absent, nothing is added. -/
theorem complete_of_subset {parts : Dict Part} {fields : List (String × Option Part)}
    (h : Dict.names fields ⊆ parts.names) : Form.complete parts fields = .ok parts := by
  induction fields with
  | nil => rfl
  | cons e rest ih =>
    obtain ⟨hname, hrest⟩ := List.cons_subset.1 h
    rw [Form.complete.eq_def]
    simp only [Dict.contains_iff.2 hname, if_true, ih hrest]

/-- Fields that stand once are read one by one, and then what is absent is added. -/
theorem ofMembers_of_reads {f : Form} {read : String → Json → Read Part} {ms : Dict Json}
    {parts before : Dict Part} (h : ReadsAs read ms parts)
    (hfields : ms.names ⊆ Dict.names f.fields) (hnodup : (Dict.names (before ++ parts)).Nodup) :
    f.ofMembers read before ms = Form.complete (before ++ parts) f.fields := by
  induction h generalizing before with
  | nil => rw [List.append_nil, Form.ofMembers]
  | @cons e p ms parts hep _ ih =>
    obtain ⟨_, v⟩ := e
    obtain ⟨name, part⟩ := p
    obtain ⟨rfl, hread⟩ := hep
    obtain ⟨hfield, hrest⟩ := List.cons_subset.1 hfields
    have hnew : before.contains name = false := by
      rw [Dict.contains_eq_false_iff]
      rw [Dict.names, List.map_append, List.map_cons] at hnodup
      exact fun hmem => List.disjoint_of_nodup_append hnodup hmem (.head _)
    have hassoc : before ++ (name, part) :: parts = before ++ [(name, part)] ++ parts := by
      rw [List.append_assoc, List.singleton_append]
    rw [hassoc] at hnodup ⊢
    rw [Form.ofMembers, Dict.contains_iff.2 hfield, hnew, hread, ← ih hrest hnodup]
    rfl

/-- A record that has all fields of the form `f` is read field by field. -/
theorem decode_of_reads {f : Form} {read : String → Json → Read Part} {ms : Dict Json}
    {parts : Dict Part} (h : ReadsAs read ms parts) (hnames : ms.names = Dict.names f.fields)
    (hnodup : ms.names.Nodup) : f.decode read (.object ms) = .ok parts := by
  have hmembers : f.ofMembers read [] ms = Form.complete parts f.fields :=
    ofMembers_of_reads h (hnames ▸ List.Subset.refl _) (h.names_eq ▸ hnodup)
  rw [Form.decode, hmembers]
  exact complete_of_subset (by rw [h.names_eq, hnames]; exact List.Subset.refl _)

/-! ## Keys -/

/-- Reads the description of one key, given how descriptions within it are read. -/
def readKey (inner : Json → Read TypeDef) (v : Json) : Read (Member TypeDef) := do
  let parts ← keyForm.decode (fun name v =>
    match name with
    | "name" => (readText v).map .text
    | "required" => (readFlag v).map .flag
    | "type" => (inner v).map .type
    | _ => (readRemark v).map .remark) v
  keyOfParts parts

theorem readPart_keys (inner : Json → Read TypeDef) (v : Json) :
    readPart inner "keys" v = (readList (readKey inner) v).map .keys := rfl

/-- The description of a key with its type written. -/
def writeKey (m : Member TypeDef) : Json := keyToJson (m.map toJson)

theorem keysToJson_eq (keys : List (Member TypeDef)) :
    (keysToJson keys).map keyToJson = keys.map writeKey := by
  induction keys with
  | nil => rfl
  | cons m rest ih => exact congrArg (writeKey m :: ·) ih

/-- The fields of a key, read one by one. -/
theorem decode_writeKey {read : String → Json → Read Part} {m : Member TypeDef}
    (hname : read "name" (.string m.key) = .ok (.text m.key))
    (hrequired : read "required" (.bool m.required) = .ok (.flag m.required))
    (htype : read "type" m.value.toJson = .ok (.type m.value))
    (hremark : ∀ text, read "description" (.string text) = .ok (.remark (some text))) :
    keyForm.decode read (writeKey m) =
      .ok [("name", .text m.key), ("required", .flag m.required), ("type", .type m.value),
        ("description", .remark m.description)] := by
  obtain ⟨key, d, required, description⟩ := m
  cases description with
  | none =>
    -- an absent remark is not written, and what stands for it is added behind the others
    have hreads : ReadsAs read
        [("name", .string key), ("required", .bool required), ("type", d.toJson)]
        [("name", .text key), ("required", .flag required), ("type", .type d)] :=
      .cons ⟨rfl, hname⟩ (.cons ⟨rfl, hrequired⟩ (.cons ⟨rfl, htype⟩ .nil))
    have hfields : ["name", "required", "type"] ⊆ Dict.names keyForm.fields := by decide
    have hnodup : ["name", "required", "type"].Nodup := by decide
    exact ofMembers_of_reads hreads hfields hnodup
  | some text =>
    have hreads : ReadsAs read
        [("name", .string key), ("required", .bool required), ("type", d.toJson),
          ("description", .string text)]
        [("name", .text key), ("required", .flag required), ("type", .type d),
          ("description", .remark (some text))] :=
      .cons ⟨rfl, hname⟩
        (.cons ⟨rfl, hrequired⟩ (.cons ⟨rfl, htype⟩ (.cons ⟨rfl, hremark text⟩ .nil)))
    have hnodup : ["name", "required", "type", "description"].Nodup := by decide
    exact decode_of_reads hreads rfl hnodup

/-- A key reads back if its type does. -/
theorem readKey_writeKey {inner : Json → Read TypeDef} {m : Member TypeDef}
    (h : inner m.value.toJson = .ok m.value) : readKey inner (writeKey m) = .ok m := by
  have htype : (inner m.value.toJson).map Part.type = .ok (.type m.value) :=
    congrArg (Except.map Part.type) h
  rw [readKey, decode_writeKey rfl rfl htype fun _ => rfl]
  rfl

/-! ## Descriptions -/

/-- The kind of a description. -/
def kindOf : TypeDef → Kind
  | .struct _ => .struct
  | .sum _ _ => .sum
  | .constrained _ _ => .constrained
  | .array _ => .array
  | .enum _ => .enum
  | .scalar _ => .scalar
  | .named _ => .named

/-- The fields of a description as they are written. -/
def fieldsOf : TypeDef → Dict Json
  | .struct keys => [("keys", .array (keys.map writeKey))]
  | .sum left right => [("left", left.toJson), ("right", right.toJson)]
  | .constrained base rules =>
    [("base", base.toJson), ("rules", .array (rules.map Constraint.toJson))]
  | .array member => [("member", member.toJson)]
  | .enum values => [("values", .array (values.map Literal.toJson))]
  | .scalar s => [("scalar", .string s.tag)]
  | .named name => [("name", .string name)]

/-- The fields of a description as they are read. -/
def partsOf : TypeDef → Dict Part
  | .struct keys => [("keys", .keys keys)]
  | .sum left right => [("left", .type left), ("right", .type right)]
  | .constrained base rules => [("base", .type base), ("rules", .rules rules)]
  | .array member => [("member", .type member)]
  | .enum values => [("values", .values values)]
  | .scalar s => [("scalar", .scalar s)]
  | .named name => [("name", .text name)]

/-- The descriptions directly inside a description. -/
def inside : TypeDef → List TypeDef
  | .struct keys => keys.map Member.value
  | .sum left right => [left, right]
  | .constrained base _ => [base]
  | .array member => [member]
  | _ => []

theorem toJson_eq (d : TypeDef) : d.toJson = tagged d.kindOf.tag d.fieldsOf := by
  cases d with
  | struct keys =>
    change tagged "struct" [("keys", .array ((keysToJson keys).map keyToJson))] = _
    rw [keysToJson_eq]
    rfl
  | _ => rfl

theorem kindKey_notMem_fieldsOf (d : TypeDef) : kindKey ∉ d.fieldsOf.names := by
  cases d <;> simp [fieldsOf, kindKey]

theorem ofTag_tag (k : Kind) : Kind.ofTag k.tag = .ok k := by
  cases k <;> rfl

/-- What is inside a description nests less deep. -/
theorem depth_lt_of_mem_inside {c d : TypeDef} (h : c ∈ d.inside) :
    c.toJson.depth < d.toJson.depth := by
  rw [toJson_eq d, tagged]
  cases d with
  | struct keys =>
    obtain ⟨m, hm, rfl⟩ := List.mem_map.1 h
    have hkey : m.value.toJson.depth < (writeKey m).depth :=
      Json.depth_lt_of_mem_members (e := ("type", _))
        (List.mem_append_left _ (.tail _ (.tail _ (.head _))))
    have hkeys : (writeKey m).depth < (Json.array (keys.map writeKey)).depth :=
      Json.depth_lt_of_mem (List.mem_map_of_mem hm)
    have hfield : (Json.array (keys.map writeKey)).depth <
        (Json.object ((kindKey, .string (kindOf (.struct keys)).tag) ::
          fieldsOf (.struct keys))).depth :=
      Json.depth_lt_of_mem_members (e := ("keys", _)) (.tail _ (.head _))
    omega
  | sum left right =>
    simp only [inside, List.mem_cons, List.not_mem_nil, or_false] at h
    rcases h with rfl | rfl
    · exact Json.depth_lt_of_mem_members (e := ("left", _)) (.tail _ (.head _))
    · exact Json.depth_lt_of_mem_members (e := ("right", _)) (.tail _ (.tail _ (.head _)))
  | constrained base rules =>
    obtain rfl := List.mem_singleton.1 h
    exact Json.depth_lt_of_mem_members (e := ("base", _)) (.tail _ (.head _))
  | array member =>
    obtain rfl := List.mem_singleton.1 h
    exact Json.depth_lt_of_mem_members (e := ("member", _)) (.tail _ (.head _))
  | enum _ | scalar _ | named _ => exact absurd h List.not_mem_nil

/-- The kind stands in front, and the other members are fields. -/
theorem splitKind_tagged (decodeKind : Json → Except Misfit Kind) {v : Json} {k : Kind}
    {fields : Dict Json} (hkind : decodeKind v = .ok k) (hfields : kindKey ∉ fields.names) :
    splitKind decodeKind none ((kindKey, v) :: fields) = .ok (k, fields) := by
  have hrest : splitKind decodeKind (some k) fields = .ok (k, fields) := by
    induction fields with
    | nil => rfl
    | cons e rest ih =>
      rw [Dict.names_cons, List.mem_cons, not_or] at hfields
      rw [splitKind, if_neg (Ne.symm hfields.1), ih hfields.2]
      rfl
  rw [splitKind, if_pos rfl]
  simp only [hkind]
  exact hrest

theorem names_fieldsOf (d : TypeDef) : d.fieldsOf.names = Dict.names d.kindOf.form.fields := by
  cases d <;> rfl

theorem nodup_fields (k : Kind) : (Dict.names k.form.fields).Nodup := by
  cases k <;> decide

theorem ofParts_partsOf (d : TypeDef) : ofParts d.kindOf d.partsOf = .ok d := by
  cases d <;> rfl

/-- Each field reads back if the descriptions inside do. -/
theorem reads_fieldsOf {inner : Json → Read TypeDef} {d : TypeDef}
    (h : ∀ c ∈ d.inside, inner c.toJson = .ok c) :
    ReadsAs (readPart inner) d.fieldsOf d.partsOf := by
  have htype : ∀ c ∈ d.inside, (inner c.toJson).map Part.type = .ok (.type c) :=
    fun c hc => congrArg (Except.map Part.type) (h c hc)
  cases d with
  | struct keys =>
    have hkeys : readList (readKey inner) (.array (keys.map writeKey)) = .ok keys :=
      readList_map fun m hm => readKey_writeKey (h m.value (List.mem_map_of_mem hm))
    exact .cons ⟨rfl, (readPart_keys inner _).trans (congrArg (Except.map Part.keys) hkeys)⟩ .nil
  | sum left right =>
    exact .cons ⟨rfl, htype left (.head _)⟩ (.cons ⟨rfl, htype right (.tail _ (.head _))⟩ .nil)
  | constrained base rules =>
    have hrules : readList readRule (.array (rules.map Constraint.toJson)) = .ok rules :=
      readList_map fun c _ => readRule_toJson c
    exact .cons ⟨rfl, htype base (.head _)⟩
      (.cons ⟨rfl, congrArg (Except.map Part.rules) hrules⟩ .nil)
  | array member => exact .cons ⟨rfl, htype member (.head _)⟩ .nil
  | enum values =>
    have hvalues : readList readLiteral (.array (values.map Literal.toJson)) = .ok values :=
      readList_map fun l _ => readLiteral_toJson l
    exact .cons ⟨rfl, congrArg (Except.map Part.values) hvalues⟩ .nil
  | scalar s => exact .cons ⟨rfl, congrArg (Except.map Part.scalar) (readScalar_tag s)⟩ .nil
  | named name => exact .cons ⟨rfl, rfl⟩ .nil

/-- The fields of a description read back if the descriptions inside it do. -/
theorem decodeFields_fieldsOf {inner : Json → Read TypeDef} {d : TypeDef}
    (h : ∀ c ∈ d.inside, inner c.toJson = .ok c) :
    decodeFields inner d.kindOf (.object d.fieldsOf) = .ok d := by
  have hparts := decode_of_reads (reads_fieldsOf h) (names_fieldsOf d)
    (names_fieldsOf d ▸ nodup_fields d.kindOf)
  rw [decodeFields, hparts]
  exact ofParts_partsOf d

/-- A description within another reads back, if it nests less deep than the limit. -/
theorem decodeAt_toJson {limit : Nat} {d : TypeDef} (h : d.toJson.depth < limit) :
    decodeAt limit d.toJson = .ok d := by
  induction limit generalizing d with
  | zero => exact absurd h (Nat.not_lt_zero _)
  | succ limit ih =>
    have hinside : ∀ c ∈ d.inside, decodeAt limit c.toJson = .ok c := by
      intro c hc
      have hlt := depth_lt_of_mem_inside hc
      exact ih (by omega)
    have hsplit := splitKind_tagged
      (fun v => (Kind.decode v).mapError fun e => ⟨[], e⟩)
      (v := .string d.kindOf.tag) (k := d.kindOf)
      (by rw [Kind.decode, ofTag_tag]; rfl) (kindKey_notMem_fieldsOf d)
    rw [toJson_eq, tagged, decodeAt]
    simp only [hsplit]
    exact decodeFields_fieldsOf hinside

/-- **A description reads back as it was**: `TypeDef.ofJson` has limit enough for every depth. -/
theorem ofJson_toJson (d : TypeDef) : ofJson d.toJson = .ok d := by
  have hinside : ∀ c ∈ d.inside, decode c.toJson = .ok c :=
    fun c _ => decodeAt_toJson (Nat.lt_succ_self _)
  have hsplit := splitKind_tagged
    (fun v => (readKind v).mapError fun e => ⟨[.key kindKey], e⟩)
    (v := .string d.kindOf.tag) (k := d.kindOf)
    (by rw [readKind, ofTag_tag]; rfl) (kindKey_notMem_fieldsOf d)
  have hcontent : ofContent d.kindOf (.object d.fieldsOf) = .ok d := decodeFields_fieldsOf hinside
  rw [toJson_eq, tagged, ofJson]
  simp only [hsplit]
  change Except.mapError _ (ofContent d.kindOf (.object d.fieldsOf)) = _
  rw [hcontent]
  rfl

end TypeDef

namespace Registry

open Decode

variable {registry read : Registry}

/-! ## Registries -/

/-- Entries of new names are read in their order. -/
theorem ofMembers_mapValues (read : Registry) (h : (Dict.names (read ++ registry)).Nodup) :
    ofMembers read (Dict.mapValues TypeDef.toJson registry) = .ok (read ++ registry) := by
  induction registry generalizing read with
  | nil => rw [List.append_nil]; rfl
  | cons e rest ih =>
    obtain ⟨name, d⟩ := e
    have hnew : name ∉ Dict.names read := by
      rw [Dict.names, List.map_append, List.map_cons] at h
      exact fun hmem => List.disjoint_of_nodup_append h hmem (.head _)
    have hassoc : read ++ (name, d) :: rest = read ++ [(name, d)] ++ rest := by
      rw [List.append_assoc, List.singleton_append]
    have hcons : Dict.mapValues TypeDef.toJson ((name, d) :: rest) =
        (name, d.toJson) :: Dict.mapValues TypeDef.toJson rest := rfl
    rw [hcons, ofMembers, TypeDef.ofJson_toJson]
    change ofMembers (Dict.insert read name d) (Dict.mapValues TypeDef.toJson rest) = _
    rw [Dict.insert_of_notMem hnew, hassoc]
    exact ih _ (hassoc ▸ h)

theorem ofJson_toJson (h : registry.names.Nodup) : ofJson registry.toJson = .ok registry :=
  ofMembers_mapValues [] h

/-- The names of a registry that is read are distinct. -/
theorem nodup_of_ofMembers {ms : List (String × Json)} (hread : (Dict.names read).Nodup)
    (h : ofMembers read ms = .ok registry) : registry.names.Nodup := by
  induction ms generalizing read with
  | nil => exact Except.ok.inj h ▸ hread
  | cons e rest ih =>
    obtain ⟨name, v⟩ := e
    obtain ⟨d, -, hrest⟩ := Except.bind_eq_ok.1 h
    exact ih (Dict.nodup_names_insert hread name d) hrest

theorem nodup_of_ofJson {v : Json} (h : ofJson v = .ok registry) : registry.names.Nodup := by
  cases v with
  | object ms =>
    have hempty : (Dict.names ([] : Registry)).Nodup := List.nodup_nil
    exact nodup_of_ofMembers hempty h
  | _ => cases h

/-- **Descriptions and registries round-trip through JSON values** by `toJson` and `ofJson`:

* a description `d` reads back as it was written;
* a registry `r`, whose names are distinct, comes back with its entries in their order, and so does
  every registry that has been read;
* so writing what has been read is idempotent, for descriptions and for registries. -/
theorem roundTrip :
    (∀ d : TypeDef, TypeDef.ofJson d.toJson = .ok d) ∧
      (∀ r : Registry, r.names.Nodup → ofJson r.toJson = .ok r) ∧
      (∀ v r, ofJson v = .ok r → ofJson r.toJson = .ok r) ∧
      (∀ v w, (TypeDef.ofJson v).map TypeDef.toJson = .ok w →
        (TypeDef.ofJson w).map TypeDef.toJson = .ok w) ∧
      ∀ v w, (ofJson v).map toJson = .ok w → (ofJson w).map toJson = .ok w := by
  have hread : ∀ v r, ofJson v = .ok r → ofJson r.toJson = .ok r :=
    fun v r hv => ofJson_toJson (nodup_of_ofJson hv)
  refine ⟨TypeDef.ofJson_toJson, fun r hr => ofJson_toJson hr, hread, fun v w hw => ?_,
    fun v w hw => ?_⟩
  · obtain ⟨d, -, hd⟩ := Except.map_eq_ok.1 hw
    rw [← hd, TypeDef.ofJson_toJson]
    rfl
  · obtain ⟨r, hr, hrw⟩ := Except.map_eq_ok.1 hw
    rw [← hrw, hread v r hr]
    rfl

/-- A registry of a record and of its lists, and a description that leaves its rules out. -/
theorem roundTrip_people :
    let registry : Registry := [
      ("Api::Person", .struct [
        ⟨"name", .enum [.string "a", .integer 1, .number .zero, .null], true, some "a remark"⟩,
        ⟨"age", .constrained (.scalar .integer) [.minimum .zero], false, none⟩]),
      ("Api::People", .array (.named "Api::Person"))]
    let age : Json := .object [
      ("base", .object [("scalar", .string "integer"), ("kind", .string "scalar")]),
      ("kind", .string "constrained")]
    registry.names.Nodup ∧ ofJson registry.toJson = .ok registry ∧
      ∃ w, (TypeDef.ofJson age).map TypeDef.toJson = .ok w ∧
        (TypeDef.ofJson w).map TypeDef.toJson = .ok w := by
  intro registry age
  obtain ⟨-, hregistry, -, hidempotent, -⟩ := roundTrip
  have hnodup : registry.names.Nodup := by decide
  have hage : (TypeDef.ofJson age).map TypeDef.toJson =
      .ok (TypeDef.toJson (.constrained (.scalar .integer) [])) := rfl
  exact ⟨hnodup, hregistry registry hnodup, _, hage, hidempotent age _ hage⟩

end Registry

end JsonShape
