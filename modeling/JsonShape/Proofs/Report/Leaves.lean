import JsonShape.Proofs.Dict
import JsonShape.Report
import Mathlib.Data.List.Sort

/-!
# The leaves of a report

A report is read off its leaves: the messages at the ends of its branches, each at the place that
the members and items above it give. Flattening a report loses none of them and adds none.

* `Report.Place`: the steps from a value to a part of it, and how they are written as a path.
* `Report.leaves`: the leaves, from first to last; items by ascending index.
* `Report.Formed`: no member stands twice in a report, and indices ascend.
* `pathHash_gathers_leaves`: each path of a leaf stands once in the flattened report, in the order
  in which the leaves come, and so does each message under its path.
-/

namespace JsonShape

namespace Report

/-! ## Places -/

/-- One step from a value to a part of it. -/
inductive Step
  | member (key : String)
  | item (index : Nat)
  deriving DecidableEq

/-- A place in a value: the steps that lead there from the whole. -/
abbrev Place := List Step

/-- How a step is written. -/
def Step.text : Step → String
  | .member key => "." ++ key
  | .item index => "[" ++ String.ofList (Nat.toDigits 10 index) ++ "]"

namespace Place

/-- The steps to a place, written one after another. -/
def text : Place → String
  | [] => ""
  | s :: p => s.text ++ Place.text p

/-- The path of a place. The value as a whole has a path of its own. -/
def path (p : Place) : String := if p = [] then rootPath else p.text

@[simp] theorem text_nil : text [] = "" := rfl

@[simp] theorem text_cons (s : Step) (p : Place) : text (s :: p) = s.text ++ text p := rfl

theorem text_append (p q : Place) : text (p ++ q) = text p ++ text q := by
  induction p with
  | nil => simp
  | cons s p ih => simp [ih, String.append_assoc]

theorem text_member (p : Place) (key : String) :
    text (p ++ [.member key]) = memberPath p.text key := by
  simp [text_append, Step.text, memberPath, String.append_assoc]

theorem text_item (p : Place) (index : Nat) :
    text (p ++ [.item index]) = itemPath p.text index := by
  simp [text_append, Step.text, itemPath, String.append_assoc]

theorem text_eq_empty_iff {p : Place} : p.text = "" ↔ p = [] := by
  cases p with
  | nil => simp
  | cons s p => cases s <;> simp [Step.text]

/-- What is written for a place is its path, or nothing for the value as a whole, which has the path
`rootPath`. -/
theorem path_eq (p : Place) : (if p.text.isEmpty then rootPath else p.text) = p.path := by
  simp only [path, String.isEmpty_iff, text_eq_empty_iff]

end Place

/-! ## Leaves -/

/-- The messages at the end of a branch of a report, and the place that they are about. -/
structure Leaf where
  place : Place
  messages : List String

/-- The path of the place. -/
def Leaf.path (l : Leaf) : String := l.place.path

/-- The leaf as it stands in the report of a greater value. -/
def Leaf.under (s : Step) (l : Leaf) : Leaf := ⟨s :: l.place, l.messages⟩

mutual

/-- The leaves of a report, from first to last: members in their order, items by ascending index,
the left side of a union before the right one, and the parent before the child. -/
def leaves : Report → List Leaf
  | .value messages => [⟨[], messages⟩]
  | .object members => leavesMembers members
  | .list items => ((leavesItems items).insertionSort fun e f => e.1 ≤ f.1).flatMap fun e =>
      e.2.map (Leaf.under (.item e.1))
  | .either left right => leaves left ++ leaves right
  | .merged parent child => leaves parent ++ leaves child

/-- The leaves of the members. -/
def leavesMembers : List (String × Report) → List Leaf
  | [] => []
  | (key, report) :: rest => (leaves report).map (Leaf.under (.member key)) ++ leavesMembers rest

/-- The leaves of each item. -/
def leavesItems : List (Nat × Report) → List (Nat × List Leaf)
  | [] => []
  | (index, report) :: rest => (index, leaves report) :: leavesItems rest

end

/-- No member stands twice in a report, and the indices of items ascend, at every depth. The reports
that `Input.call` makes are so. -/
inductive Formed : Report → Prop
  | value (messages : List String) : Formed (.value messages)
  | object {members : List (String × Report)} (hkeys : (Dict.names members).Nodup)
    (h : ∀ e ∈ members, Formed e.2) : Formed (.object members)
  | list {items : List (Nat × Report)} (hindices : (items.map Prod.fst).Pairwise (· < ·))
    (h : ∀ e ∈ items, Formed e.2) : Formed (.list items)
  | either {left right : Report} (hleft : Formed left) (hright : Formed right) :
    Formed (.either left right)
  | merged {parent child : Report} (hparent : Formed parent) (hchild : Formed child) :
    Formed (.merged parent child)

/-- A report by member names none twice. -/
theorem formed_ofMembers {entries : List (String × Report)} (h : ∀ e ∈ entries, e.2.Formed) :
    (ofMembers entries).Formed :=
  .object (Dict.nodup_names_ofList entries) fun e he => h e (Dict.mem_of_mem_ofList he)

theorem mem_of_mem_insertItem {index : Nat} {r : Report} {items : List (Nat × Report)}
    {e : Nat × Report} (h : e ∈ insertItem index r items) : e = (index, r) ∨ e ∈ items := by
  induction items with
  | nil => exact Or.inl (List.mem_singleton.1 h)
  | cons f rest ih =>
    rw [insertItem] at h
    split at h
    · exact List.mem_cons.1 h
    · split at h
      · exact (List.mem_cons.1 h).imp_right (.tail _)
      · rcases List.mem_cons.1 h with rfl | h
        · exact Or.inr (.head _)
        · exact (ih h).imp_right (.tail _)

/-- Writing the failure of one item keeps the indices ascending. -/
theorem pairwise_insertItem {items : List (Nat × Report)}
    (h : items.Pairwise fun e f => e.1 < f.1) (index : Nat) (r : Report) :
    (insertItem index r items).Pairwise fun e f => e.1 < f.1 := by
  induction items with
  | nil => exact List.pairwise_singleton _ _
  | cons f rest ih =>
    obtain ⟨i, r'⟩ := f
    have ⟨hfirst, hrest⟩ := List.pairwise_cons.1 h
    rw [insertItem]
    split
    · next hlt =>
      refine List.pairwise_cons.2 ⟨fun e he => ?_, h⟩
      rcases List.mem_cons.1 he with rfl | he
      · exact hlt
      · exact hlt.trans (hfirst e he)
    · next hle =>
      split
      · next heq =>
        subst heq
        exact List.pairwise_cons.2 ⟨hfirst, hrest⟩
      · next hne =>
        refine List.pairwise_cons.2 ⟨fun e he => ?_, ih hrest⟩
        rcases mem_of_mem_insertItem he with rfl | he
        · show i < index
          omega
        · exact hfirst e he

/-- In a report by index, the indices ascend. -/
theorem formed_ofItems {entries : List (Nat × Report)} (h : ∀ e ∈ entries, e.2.Formed) :
    (ofItems entries).Formed := by
  suffices ∀ items : List (Nat × Report), (items.Pairwise fun e f => e.1 < f.1) →
      (∀ e ∈ items, e.2.Formed) →
      (list (entries.foldl (fun items e => insertItem e.1 e.2 items) items)).Formed from
    this [] List.Pairwise.nil (List.forall_mem_nil _)
  induction entries with
  | nil => exact fun items hsorted hformed => .list (List.pairwise_map.2 hsorted) hformed
  | cons e rest ih =>
    intro items hsorted hformed
    refine ih (fun f hf => h f (.tail _ hf)) _ (pairwise_insertItem hsorted _ _) fun f hf => ?_
    rcases mem_of_mem_insertItem hf with rfl | hf
    · exact h e (.head _)
    · exact hformed f hf

@[simp] theorem leaves_value (messages : List String) :
    leaves (.value messages) = [⟨[], messages⟩] := rfl

@[simp] theorem leaves_either (left right : Report) :
    leaves (.either left right) = left.leaves ++ right.leaves := rfl

@[simp] theorem leaves_merged (parent child : Report) :
    leaves (.merged parent child) = parent.leaves ++ child.leaves := rfl

theorem leaves_object (members : List (String × Report)) : leaves (.object members) =
    members.flatMap fun e => e.2.leaves.map (Leaf.under (.member e.1)) := by
  change leavesMembers members = _
  induction members with
  | nil => rfl
  | cons e rest ih => rw [List.flatMap_cons, ← ih]; rfl

theorem mem_leaves_object {members : List (String × Report)} {l : Leaf} :
    l ∈ leaves (.object members) ↔
      ∃ e ∈ members, ∃ m ∈ e.2.leaves, m.under (.member e.1) = l := by
  simp only [leaves_object, List.mem_flatMap, List.mem_map]

theorem leavesItems_eq (items : List (Nat × Report)) :
    leavesItems items = items.map fun e => (e.1, e.2.leaves) := by
  induction items with
  | nil => rfl
  | cons e rest ih => rw [List.map_cons, ← ih]; rfl

theorem mem_leaves_list {items : List (Nat × Report)} {l : Leaf} : l ∈ leaves (.list items) ↔
    ∃ e ∈ items, ∃ m ∈ e.2.leaves, m.under (.item e.1) = l := by
  rw [leaves, List.mem_flatMap]
  simp only [List.mem_insertionSort, leavesItems_eq, List.mem_map, exists_exists_and_eq_and]

/-- Items whose indices ascend have their leaves in their order. -/
theorem leaves_list {items : List (Nat × Report)}
    (h : (items.map Prod.fst).Pairwise (· < ·)) : leaves (.list items) =
      items.flatMap fun e => e.2.leaves.map (Leaf.under (.item e.1)) := by
  have hsorted : (leavesItems items).Pairwise fun e f => e.1 ≤ f.1 := by
    rw [leavesItems_eq, List.pairwise_map]
    exact (List.pairwise_map.1 h).imp Nat.le_of_lt
  rw [leaves, hsorted.insertionSort_eq, leavesItems_eq, List.flatMap_map]

/-! ## Gathering messages by path -/

/-- The messages of the leaves with the path `path`, from first to last. -/
def messagesUnder (ls : List Leaf) (path : String) : List String :=
  (ls.filter fun l => l.path = path).flatMap Leaf.messages

/-- The messages of `ls` by path: each path at its first occurrence, and under it each message at
its first occurrence. -/
def gather (ls : List Leaf) : PathHash :=
  (ls.map Leaf.path).eraseDups.map fun path => (path, (messagesUnder ls path).eraseDups)

/-- Adds the messages of a leaf. -/
def PathHash.add (hash : PathHash) (l : Leaf) : PathHash :=
  hash.insert l.path (addMessages ((hash.get? l.path).getD []) l.messages)

theorem messagesUnder_append (ls more : List Leaf) (path : String) :
    messagesUnder (ls ++ more) path = messagesUnder ls path ++ messagesUnder more path := by
  simp [messagesUnder]

theorem messagesUnder_singleton (l : Leaf) (path : String) :
    messagesUnder [l] path = if l.path = path then l.messages else [] := by
  rw [messagesUnder, List.filter_singleton]
  by_cases h : l.path = path <;> simp [h]

theorem messagesUnder_of_notMem {ls : List Leaf} {path : String} (h : path ∉ ls.map Leaf.path) :
    messagesUnder ls path = [] := by
  have hnone : ls.filter (fun l => l.path = path) = [] := by
    rw [List.filter_eq_nil_iff]
    intro l hl heq
    exact h (List.mem_map.2 ⟨l, hl, of_decide_eq_true heq⟩)
  rw [messagesUnder, hnone, List.flatMap_nil]

theorem addMessages_eq_foldl (present more : List String) :
    addMessages present more = more.foldl addNew present := rfl

theorem get?_gather (ls : List Leaf) (path : String) : (gather ls).get? path =
    if path ∈ ls.map Leaf.path then some (messagesUnder ls path).eraseDups else none := by
  rw [gather, Dict.get?_map_key]
  simp only [List.mem_eraseDups]

theorem getD_gather (ls : List Leaf) (path : String) :
    ((gather ls).get? path).getD [] = (messagesUnder ls path).eraseDups := by
  rw [get?_gather]
  split
  · rfl
  · next h => simp [messagesUnder_of_notMem h]

theorem names_gather (ls : List Leaf) : (gather ls).names = (ls.map Leaf.path).eraseDups :=
  Dict.names_map_key _ _

theorem nodup_names_add {hash : PathHash} (h : hash.names.Nodup) (l : Leaf) :
    (hash.add l).names.Nodup := Dict.nodup_names_insert h _ _

/-- **Adding a leaf to what is gathered gathers one leaf more**: `PathHash.add` keeps the order of
paths and of messages. -/
theorem add_gather (ls : List Leaf) (hnodup : (gather ls).names.Nodup) (l : Leaf) :
    (gather ls).add l = gather (ls ++ [l]) := by
  -- the same paths in the same order, and then the same messages under each
  have hnames : ((gather ls).add l).names = (gather (ls ++ [l])).names := by
    rw [PathHash.add, Dict.names_insert, names_gather, names_gather, List.map_append,
      List.map_singleton, List.eraseDups_append_singleton]
    simp only [List.mem_eraseDups]
  refine Dict.eq_of_sublist (nodup_names_add hnodup l) (List.Sublist.refl _)
    (hnames ▸ List.Sublist.refl _) fun path _ => ?_
  rw [PathHash.add, Dict.get?_insert, getD_gather, addMessages_eq_foldl, foldl_addNew_eraseDups,
    get?_gather,
    get?_gather, messagesUnder_append, messagesUnder_singleton]
  by_cases h : l.path = path
  · simp [h]
  · simp [h, Ne.symm h]

/-- Leaves that are added one by one are gathered. -/
theorem foldl_add (ls : List Leaf) :
    ls.foldl PathHash.add [] = gather ls ∧ (gather ls).names.Nodup := by
  induction ls using List.reverseRecOn with
  | nil => exact ⟨rfl, List.nodup_nil⟩
  | append_singleton ls l ih =>
    obtain ⟨hfold, hnodup⟩ := ih
    have hadd := add_gather ls hnodup l
    refine ⟨?_, hadd ▸ nodup_names_add hnodup l⟩
    rw [List.foldl_append, hfold, List.foldl_cons, List.foldl_nil, hadd]

/-! ## Flattening -/

/-- The leaf as it stands in the report of a value that has its own at a place. -/
def Leaf.below (p : Place) (l : Leaf) : Leaf := ⟨p ++ l.place, l.messages⟩

@[simp] theorem Leaf.below_nil : Leaf.below [] = id := rfl

theorem Leaf.below_under (p : Place) (s : Step) (l : Leaf) :
    (l.under s).below p = l.below (p ++ [s]) := by
  simp [below, under]

theorem collectMembers_eq (path : String) (members : List (String × Report)) (hash : PathHash) :
    collectMembers path members hash =
      members.foldl (fun hash e => e.2.collect (memberPath path e.1) hash) hash := by
  induction members generalizing hash with
  | nil => rfl
  | cons e rest ih => exact ih _

theorem collectItems_eq (path : String) (items : List (Nat × Report)) (hash : PathHash) :
    collectItems path items hash =
      items.foldl (fun hash e => e.2.collect (itemPath path e.1) hash) hash := by
  induction items generalizing hash with
  | nil => rfl
  | cons e rest ih => exact ih _

/-- Where `Report.collect` adds the leaves of each part, parts that are taken one by one add the
leaves of all. -/
theorem foldl_collect {α : Type} {p : Place} {step : α → Step} {report : α → Report}
    {parts : List α} (h : ∀ e ∈ parts, ∀ q hash, (report e).collect (Place.text q) hash =
      ((report e).leaves.map (Leaf.below q)).foldl PathHash.add hash) (hash : PathHash) :
    parts.foldl (fun hash e => (report e).collect (Place.text (p ++ [step e])) hash) hash =
      ((parts.flatMap fun e => (report e).leaves.map (Leaf.under (step e))).map
        (Leaf.below p)).foldl PathHash.add hash := by
  induction parts generalizing hash with
  | nil => rfl
  | cons e rest ih =>
    have hpart : ((report e).leaves.map (Leaf.under (step e))).map (Leaf.below p) =
        (report e).leaves.map (Leaf.below (p ++ [step e])) := by
      simp [Leaf.below_under]
    rw [List.foldl_cons, h e (.head _), ih fun f hf => h f (.tail _ hf), List.flatMap_cons,
      List.map_append, List.foldl_append, hpart]

/-- **Flattening adds the leaves of a report, from first to last**, each at its place below `p`, the
one at which `r` stands. -/
theorem collect_eq_foldl {r : Report} (h : r.Formed) (p : Place) (hash : PathHash) :
    r.collect p.text hash = (r.leaves.map (Leaf.below p)).foldl PathHash.add hash := by
  induction h generalizing p hash with
  | value messages =>
    -- the path of the whole is chosen at the leaf only, where no step stands above
    simp only [collect, leaves_value, List.map_cons, List.map_nil, List.foldl_cons, List.foldl_nil,
      PathHash.add, Leaf.path, Leaf.below, List.append_nil, Place.path_eq]
  | object _ _ ih =>
    rw [collect, collectMembers_eq, leaves_object, ← foldl_collect ih]
    simp only [Place.text_member]
  | list hindices _ ih =>
    rw [collect, collectItems_eq, leaves_list hindices, ← foldl_collect ih]
    simp only [Place.text_item]
  | either _ _ ihl ihr =>
    rw [collect, ihl, ihr, leaves_either, List.map_append, List.foldl_append]
  | merged _ _ ihp ihc =>
    rw [collect, ihp, ihc, leaves_merged, List.map_append, List.foldl_append]

/-- **Flattening loses nothing and invents nothing.** The paths of `r.pathHash` are those of
`r.leaves`, each once, in the order in which they first come; under a path are the messages of all
leaves with this path (`messagesUnder`), each once, in the order in which they first come. A leaf
that only unions and inheritance stand above has the path of the value as a whole. -/
theorem pathHash_gathers_leaves (r : Report) (h : r.Formed) :
    r.pathHash = (r.leaves.map Leaf.path).eraseDups.map (fun path =>
        (path, (messagesUnder r.leaves path).eraseDups)) ∧
      ∀ l ∈ r.leaves, l.place = [] → l.path = "." := by
  refine ⟨?_, fun l _ hl => ?_⟩
  · have hcollect := collect_eq_foldl h [] []
    rw [Leaf.below_nil, List.map_id] at hcollect
    exact hcollect.trans (foldl_add r.leaves).1
  · rw [Leaf.path, hl]
    rfl

/-- Tags of which two fail, for both sides of an inheritance, in a union with a text. -/
theorem pathHash_gathers_leaves_tags :
    let own : Report := .ofMembers [("tags", .ofItems [(1, .message "must be a string")])]
    let tags : Report := .ofItems [(12, .message "must be a number"),
      (1, .value ["must be a number", "must be a string"])]
    let inherited : Report := .ofMembers [("tags", tags)]
    let r : Report := .either (.message "must be a string") (.merged inherited own)
    r.Formed ∧ r.pathHash = [(".", ["must be a string"]),
      (".tags[1]", ["must be a number", "must be a string"]),
      (".tags[12]", ["must be a number"])] := by
  intro own tags inherited r
  have htags : tags.Formed := by
    refine formed_ofItems fun e he => ?_
    rcases List.mem_pair.1 he with rfl | rfl
    · exact .value _
    · exact .value _
  have hown : own.Formed := by
    refine formed_ofMembers fun e he => ?_
    obtain rfl := List.mem_singleton.1 he
    refine formed_ofItems fun e he => ?_
    obtain rfl := List.mem_singleton.1 he
    exact .value _
  have hinherited : inherited.Formed := by
    refine formed_ofMembers fun e he => ?_
    obtain rfl := List.mem_singleton.1 he
    exact htags
  have hr : r.Formed := .either (.value _) (.merged hinherited hown)
  exact ⟨hr, (pathHash_gathers_leaves r hr).1.trans (by decide +kernel)⟩

end Report

end JsonShape
