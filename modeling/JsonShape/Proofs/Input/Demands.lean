import JsonShape.Proofs.Registry.Required

/-!
# Members that are reported as required

A record that is called on the empty object reports each member that it requires. Where records
inherit from one another, each reports its own, and the reports are merged; what a caller reads is
the flattened report, with the messages by path.

* `Report.Lacks`: the reports of nothing but missing members.
* `tells_pathHash_iff`: a flattened report of this kind has the message under the paths of these
  members.
* `Input.Demands`: the input, called on the empty object, reports this member as required.
-/

namespace JsonShape

namespace Report

variable {r : Report} {keys : List String} {k path text : String} {hash : PathHash}

/-- Among the messages that `hash` has under `path` is `text`. -/
def PathHash.Tells (hash : PathHash) (path text : String) : Prop :=
  ∃ messages, hash.get? path = some messages ∧ text ∈ messages

/-- The report says of the members `keys`, and of no others, that they are required. -/
inductive Lacks : Report → List String → Prop
  | object (keys : List String) : Lacks (.object (keys.map fun k => (k, .required))) keys
  | merged {parent child : Report} {keys more : List String} (hparent : Lacks parent keys)
    (hchild : Lacks child more) : Lacks (.merged parent child) (keys ++ more)

theorem tells_nil : ¬PathHash.Tells [] path text := nofun

theorem mem_addMessages {present more : List String} :
    text ∈ addMessages present more ↔ text ∈ present ∨ text ∈ more := mem_foldl_addNew

theorem memberPath_inj {k l : String} : memberPath path k = memberPath path l ↔ k = l :=
  String.append_right_inj (path ++ ".")

theorem not_isEmpty_memberPath (path k : String) : (memberPath path k).isEmpty = false := by
  rw [memberPath, String.append_assoc]
  simp

/-- The report of an absent member has its message written under the path of the member. -/
theorem tells_collect_required (k : String) (hash : PathHash) :
    ((required.collect (memberPath "" k) hash).Tells path text ↔
      hash.Tells path text ∨ path = memberPath "" k ∧ text = "is required") := by
  have hcollect : required.collect (memberPath "" k) hash =
      hash.insert (memberPath "" k)
        (addMessages ((hash.get? (memberPath "" k)).getD []) ["is required"]) := by
    rw [required, message, collect, not_isEmpty_memberPath]
    rfl
  rw [hcollect, PathHash.Tells, PathHash.Tells]
  simp only [Dict.get?_insert]
  by_cases hpath : memberPath "" k = path
  · subst hpath
    cases hget : hash.get? (memberPath "" k) <;> simp [mem_addMessages]
  · simp [hpath, Ne.symm hpath]

theorem tells_collect (h : r.Lacks keys) (k : String) (hash : PathHash) :
    (r.collect "" hash).Tells (memberPath "" k) "is required" ↔
      hash.Tells (memberPath "" k) "is required" ∨ k ∈ keys := by
  induction h generalizing hash with
  | object keys =>
    induction keys generalizing hash with
    | nil => simp [collect, collectMembers]
    | cons l rest ih =>
      have hcons : (Report.object ((l :: rest).map fun k => (k, .required))).collect "" hash =
          (Report.object (rest.map fun k => (k, .required))).collect ""
            (required.collect (memberPath "" l) hash) := rfl
      rw [hcons, ih, tells_collect_required, memberPath_inj, List.mem_cons, or_assoc]
      simp
  | merged _ _ hparent hchild => rw [collect, hchild, hparent, List.mem_append, or_assoc]

/-- **What a flattened report of missing members says**: `is required` stands under the path of each
key that `r` lacks, and under no other. -/
theorem tells_pathHash_iff (h : r.Lacks keys) :
    r.pathHash.Tells (memberPath "" k) "is required" ↔ k ∈ keys := by
  rw [pathHash, tells_collect h, or_iff_right tells_nil]

end Report

/-- The value is accepted if `keys` is empty, and otherwise these members are reported missing. -/
def Checked.Lacks (c : Checked) (keys : List String) : Prop :=
  match c with
  | .ok _ => keys = []
  | .error r => r.Lacks keys

/-- What an inheritance lacks is what its sides lack. -/
theorem Checked.Lacks.merge {parent child : Checked} {keys more : List String}
    (hparent : parent.Lacks keys) (hchild : child.Lacks more) :
    (parent.merge child).Lacks (keys ++ more) := by
  cases parent with
  | ok v =>
    obtain rfl : keys = [] := hparent
    cases child with
    | ok w => exact hchild
    | error r => exact hchild
  | error r =>
    cases child with
    | ok w =>
      obtain rfl : more = [] := hchild
      exact (List.append_nil keys).symm ▸ hparent
    | error s => exact .merged hparent hchild

namespace Input

variable [Regex.Engine] {defs : Dict Input} {i : Input} {keys : List String} {k : String}

/-- Of the empty object, `i` reports the member `k` as required. -/
def Demands (defs : Dict Input) (i : Input) (k : String) : Prop :=
  ∃ r, i.call defs (.object []) = some (.error r) ∧
    r.pathHash.Tells (Report.memberPath "" k) "is required"

/-- A record lacks, of the empty object, the members that it requires, by their declarations in
force. -/
theorem lacks_object (deferred : String → Json → Outcome) (members : List (Member Input)) :
    ∃ c : Checked, callWith deferred (.object members) (.object []) = some c ∧
      c.Lacks (Member.keys ((Member.distinct members).filter Member.required)) := by
  have hfailures := Checked.memberFailures_absent (Member.distinct members)
  refine ⟨_, callWith_empty_object deferred members, ?_⟩
  unfold Checked.ofMembers
  rw [hfailures]
  have hmap : ((Member.distinct members).filter Member.required).map
      (fun m => (m.key, Report.required)) =
        (Member.keys ((Member.distinct members).filter Member.required)).map
          fun k => (k, Report.required) := by
    rw [Member.keys, List.map_map]
    rfl
  rw [hmap]
  cases Member.keys ((Member.distinct members).filter Member.required) with
  | nil => exact rfl
  | cons l rest => exact .object (l :: rest)

/-- What is missing is what `Demands` says to be required. -/
theorem demands_iff {c : Checked} (hcall : i.call defs (.object []) = some c) (h : c.Lacks keys) :
    Demands defs i k ↔ k ∈ keys := by
  cases c with
  | ok v =>
    obtain rfl : keys = [] := h
    simp [Demands, hcall]
  | error r =>
    have hlacks : r.Lacks keys := h
    rw [← Report.tells_pathHash_iff hlacks, Demands, hcall]
    simp

end Input

end JsonShape
