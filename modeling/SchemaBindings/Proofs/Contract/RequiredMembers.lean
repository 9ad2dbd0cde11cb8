import Mathlib.Logic.Relation
import SchemaBindings.Contract.Check

namespace SchemaBindings.Contract

open Relation
open SchemaBindings.Document

/-- The member that the contract marks as required in a record whose kind is named. -/
def Shape.required? : Shape → String → Option String
  | node, "struct" => some "struct"
  | node, "enum" => some "enum"
  | node, "const" => some "const"
  | type, "list" => some "elementType"
  | _, _ => none

namespace Rule

/-- The places of a tree with the rules that hold there, when a rule holds for all of it. -/
inductive Reaches (rule : Rule) (tree : Tree) : Rule → Tree → Prop where
  | whole : Reaches rule tree rule tree
  | item {outer inner : Rule} {items : List Tree} {part : Tree}
      (h : Reaches rule tree outer (.list items)) (hi : outer.item? = some inner)
      (hp : part ∈ items) : Reaches rule tree inner part
  | member {outer inner : Rule} {rules : List (String × Rule)} {members : List (String × Tree)}
      {name : String} {part : Tree} (h : Reaches rule tree outer (.record members))
      (hr : outer.members? = some rules) (hn : rules.lookup name = some inner)
      (hp : (name, part) ∈ members) : Reaches rule tree inner part

/-- What one place may hold, whatever stands inside it: a scalar that the rule is for, a list where
there is a rule for its items, or a record that has no members but its own. -/
def Fits (rule : Rule) : Tree → Prop
  | .scalar s => rule.admitsScalar s = true
  | .list _ => ∃ inner, rule.item? = some inner
  | .record members => ∃ rules, rule.members? = some rules ∧
      ∀ member ∈ members, ∃ inner, rules.lookup member.1 = some inner

/-- Wherever a record names a kind, the member that is required with it is there. -/
def Complete (rule : Rule) (tree : Tree) : Prop :=
  ∀ shape members kind name, rule.Reaches tree (record shape) (.record members) →
    ("kind", .ofText kind) ∈ members → shape.required? kind = some name →
    ∃ part, (name, part) ∈ members

end Rule

/-- One member is left out somewhere in a tree. -/
inductive LeavesOut : Tree → Tree → Prop where
  | member {before after : List (String × Tree)} {left : String × Tree} :
      LeavesOut (.record (before ++ left :: after)) (.record (before ++ after))
  | inside {before after : List (String × Tree)} {name : String} {part less : Tree}
      (h : LeavesOut part less) :
      LeavesOut (.record (before ++ (name, part) :: after))
        (.record (before ++ (name, less) :: after))
  | item {before after : List Tree} {part less : Tree} (h : LeavesOut part less) :
      LeavesOut (.list (before ++ part :: after)) (.list (before ++ less :: after))

namespace Rule

variable {rule outer inner : Rule} {tree part less : Tree} {items : List Tree}
  {members : List (String × Tree)} {rules : List (String × Rule)}

theorem admitsItems_iff : admitsItems rule items = true ↔ ∀ t ∈ items, rule.admits t = true := by
  induction items with
  | nil => simp [admitsItems]
  | cons t items ih => rw [admitsItems, Bool.and_eq_true, ih, List.forall_mem_cons]

theorem admitsMembers_iff : admitsMembers rules members = true ↔
    ∀ member ∈ members, ∃ inner, rules.lookup member.1 = some inner ∧
      inner.admits member.2 = true := by
  induction members with
  | nil => simp [admitsMembers]
  | cons member members ih =>
    obtain ⟨name, t⟩ := member
    rw [admitsMembers, Bool.and_eq_true, ih, List.forall_mem_cons]
    refine and_congr_left fun _ => ?_
    cases rules.lookup name with
    | none => simp
    | some inner => simp

theorem admits_list_iff : rule.admits (.list items) = true ↔
    ∃ inner, rule.item? = some inner ∧ ∀ t ∈ items, inner.admits t = true := by
  rw [admits]
  cases rule.item? with
  | none => simp
  | some inner => simp [admitsItems_iff]

theorem admits_record_iff : rule.admits (.record members) = true ↔
    ∃ rules, rule.members? = some rules ∧ ∀ member ∈ members, ∃ inner,
      rules.lookup member.1 = some inner ∧ inner.admits member.2 = true := by
  rw [admits]
  cases rule.members? with
  | none => simp
  | some rules => simp [admitsMembers_iff]

theorem Fits.of_admits (h : rule.admits tree = true) : rule.Fits tree := by
  cases tree with
  | scalar s =>
    rw [admits] at h
    exact h
  | list items =>
    obtain ⟨inner, hi, -⟩ := admits_list_iff.1 h
    exact ⟨inner, hi⟩
  | record members =>
    obtain ⟨rules, hr, hmembers⟩ := admits_record_iff.1 h
    refine ⟨rules, hr, fun member hm => ?_⟩
    obtain ⟨inner, hn, -⟩ := hmembers member hm
    exact ⟨inner, hn⟩

/-- What is admitted is admitted in all its places. -/
theorem Reaches.admits (h : rule.Reaches tree inner part) (ha : rule.admits tree = true) :
    inner.admits part = true := by
  induction h with
  | whole => exact ha
  | item _ hi hp ih =>
    obtain ⟨inner, hi', hitems⟩ := admits_list_iff.1 ih
    cases hi.symm.trans hi'
    exact hitems _ hp
  | member _ hr hn hp ih =>
    obtain ⟨rules, hr', hmembers⟩ := admits_record_iff.1 ih
    cases hr.symm.trans hr'
    obtain ⟨inner, hn', ha⟩ := hmembers _ hp
    cases hn.symm.trans hn'
    exact ha

theorem Reaches.trans {last : Rule} {end_ : Tree} (h : rule.Reaches tree outer part)
    (h' : outer.Reaches part last end_) : rule.Reaches tree last end_ := by
  induction h' with
  | whole => exact h
  | item _ hi hp ih => exact .item ih hi hp
  | member _ hr hn hp ih => exact .member ih hr hn hp

theorem admits_of_fits (rule : Rule) (tree : Tree)
    (h : ∀ inner part, rule.Reaches tree inner part → inner.Fits part) :
    rule.admits tree = true := by
  match tree, h with
  | .scalar s, h =>
    rw [admits]
    exact h rule _ .whole
  | .list items, h =>
    obtain ⟨inner, hi⟩ := h rule _ .whole
    refine admits_list_iff.2 ⟨inner, hi, fun t ht => ?_⟩
    have hsize := List.sizeOf_lt_of_mem ht
    exact admits_of_fits inner t fun last part hp => h last part (.trans (.item .whole hi ht) hp)
  | .record members, h =>
    obtain ⟨rules, hr, hnames⟩ := h rule _ .whole
    refine admits_record_iff.2 ⟨rules, hr, fun member hm => ?_⟩
    obtain ⟨inner, hn⟩ := hnames member hm
    have hsize := List.sizeOf_lt_of_mem hm
    have hpair : sizeOf member = 1 + sizeOf member.1 + sizeOf member.2 := by
      cases member
      rfl
    refine ⟨inner, hn, ?_⟩
    exact admits_of_fits inner member.2 fun last part hp =>
      h last part (.trans (.member .whole hr hn hm) hp)
termination_by sizeOf tree

/-- A tree is admitted exactly if every place of it holds what it may hold. -/
theorem admits_iff_fits : rule.admits tree = true ↔
    ∀ inner part, rule.Reaches tree inner part → inner.Fits part :=
  ⟨fun ha _ _ h => .of_admits (h.admits ha), admits_of_fits rule tree⟩

theorem admits_of_leavesOut (h : LeavesOut tree less) (rule : Rule)
    (ha : rule.admits tree = true) : rule.admits less = true := by
  induction h generalizing rule with
  | @member before after left =>
    obtain ⟨rules, hr, hmembers⟩ := admits_record_iff.1 ha
    refine admits_record_iff.2 ⟨rules, hr, fun member hm => hmembers member ?_⟩
    exact List.mem_append.2 ((List.mem_append.1 hm).imp_right (List.mem_cons_of_mem _))
  | @inside before after name part less _ ih =>
    obtain ⟨rules, hr, hmembers⟩ := admits_record_iff.1 ha
    refine admits_record_iff.2 ⟨rules, hr, fun member hm => ?_⟩
    obtain ⟨inner, hn, hpart⟩ := hmembers (name, part) (by simp)
    rcases List.mem_append.1 hm with hm | hm
    · exact hmembers member (List.mem_append_left _ hm)
    · rcases List.mem_cons.1 hm with rfl | hm
      · exact ⟨inner, hn, ih inner hpart⟩
      · exact hmembers member (List.mem_append_right _ (List.mem_cons_of_mem _ hm))
  | @item before after part less _ ih =>
    obtain ⟨inner, hi, hitems⟩ := admits_list_iff.1 ha
    refine admits_list_iff.2 ⟨inner, hi, fun t ht => ?_⟩
    rcases List.mem_append.1 ht with ht | ht
    · exact hitems t (List.mem_append_left _ ht)
    · rcases List.mem_cons.1 ht with rfl | ht
      · exact ih inner (hitems part (by simp))
      · exact hitems t (List.mem_append_right _ (List.mem_cons_of_mem _ ht))

/-- However many members are left out, one after the other, what is left is admitted. -/
theorem admits_of_leavesOut_all (h : ReflTransGen LeavesOut tree less)
    (ha : rule.admits tree = true) : rule.admits less = true := by
  induction h with
  | refl => exact ha
  | tail _ hstep ih => exact admits_of_leavesOut hstep rule ih

theorem leavesOut_filter (keep : String → Bool) (before members : List (String × Tree)) :
    ReflTransGen LeavesOut (.record (before ++ members))
      (.record (before ++ members.filter fun member => keep member.1)) := by
  induction members generalizing before with
  | nil => exact .refl
  | cons member members ih =>
    by_cases hk : keep member.1 = true
    · simpa [hk] using ih (before ++ [member])
    · simpa [hk] using ReflTransGen.head LeavesOut.member (ih before)

/-- Members can be left out in one place of a tree, and the rest of it stays. -/
theorem Reaches.leaveOut (h : rule.Reaches tree inner part)
    (hl : ReflTransGen LeavesOut part less) :
    ∃ left, ReflTransGen LeavesOut tree left ∧ rule.Reaches left inner less := by
  induction h generalizing less with
  | whole => exact ⟨less, hl, .whole⟩
  | item _ hi hp ih =>
    obtain ⟨before, after, rfl⟩ := List.append_of_mem hp
    have hlist := hl.lift (fun t => Tree.list (before ++ t :: after))
      fun _ _ h => LeavesOut.item h
    obtain ⟨left, hleft, hr⟩ := ih hlist
    exact ⟨left, hleft, .item hr hi (by simp)⟩
  | @member _ _ _ _ name _ _ hr hn hp ih =>
    obtain ⟨before, after, rfl⟩ := List.append_of_mem hp
    have hrecord := hl.lift (fun t => Tree.record (before ++ (name, t) :: after))
      fun _ _ h => LeavesOut.inside h
    obtain ⟨left, hleft, hreaches⟩ := ih hrecord
    exact ⟨left, hleft, .member hreaches hr hn (by simp)⟩

end Rule

theorem checkTree_eq_ok_iff {tree : Tree} :
    checkTree tree = .ok () ↔ requestRule.admits tree = true := by
  unfold checkTree
  by_cases h : requestRule.admits tree = true
  · simp [h]
  · simp [h]

theorem checkText_eq_ok_iff {s : String} :
    checkText s = .ok () ↔ ∃ tree, readText? s.toList = some tree ∧
      requestRule.admits tree = true := by
  unfold checkText
  cases readText? s.toList with
  | none => simp
  | some tree => simp [checkTree_eq_ok_iff]

namespace Shape

variable {shape : Shape} {kind name : String}

/-- The member that is required with a kind stands under a rule for records. -/
theorem required?_rule (h : shape.required? kind = some name) :
    ∃ inner, shape.members.lookup name = some (.record inner) := by
  unfold required? at h
  split at h <;> cases h <;> exact ⟨_, rfl⟩

theorem required?_ne_kind (h : shape.required? kind = some name) : name ≠ "kind" := by
  unfold required? at h
  split at h <;> cases h <;> decide

end Shape

/-- Wherever a kind calls for a member, the member can be left out. -/
theorem exists_incomplete {tree : Tree} {shape : Shape} {members : List (String × Tree)}
    {kind name : String} (h : requestRule.Reaches tree (.record shape) (.record members))
    (hkind : ("kind", .ofText kind) ∈ members) (hname : shape.required? kind = some name) :
    ∃ less, ReflTransGen LeavesOut tree less ∧ ¬requestRule.Complete less := by
  let kept := members.filter fun member => member.1 != name
  have hkept : ReflTransGen LeavesOut (.record members) (.record kept) :=
    Rule.leavesOut_filter (· != name) [] members
  obtain ⟨less, hless, hreaches⟩ := h.leaveOut hkept
  refine ⟨less, hless, fun hcomplete => ?_⟩
  have hkind' : ("kind", .ofText kind) ∈ kept :=
    List.mem_filter.2 ⟨hkind, bne_iff_ne.2 (Shape.required?_ne_kind hname).symm⟩
  obtain ⟨part, hpart⟩ := hcomplete shape kept kind name hreaches hkind' hname
  exact bne_iff_ne.1 (List.mem_filter.1 hpart).2 rfl

/-- A text is accepted exactly if it can be read and every place in it holds what it may hold. Where
a kind calls for a member, the member is looked at if it is there, and it need not be: leaving out
members keeps a request accepted, and any required one can be left out. -/
theorem accepted_iff_present_members_fit (s : String) :
    (checkText s = .ok () ↔ ∃ tree, readText? s.toList = some tree ∧
      ∀ inner part, requestRule.Reaches tree inner part → inner.Fits part) ∧
    ∀ tree, readText? s.toList = some tree → checkText s = .ok () →
      (∀ less, ReflTransGen LeavesOut tree less → checkTree less = .ok ()) ∧
      ∀ shape members kind name, requestRule.Reaches tree (.record shape) (.record members) →
        ("kind", .ofText kind) ∈ members → shape.required? kind = some name →
        (∀ part, (name, part) ∈ members →
          ∃ inner parts, part = .record parts ∧ (Rule.record inner).admits part = true) ∧
        ∃ less, ReflTransGen LeavesOut tree less ∧ checkTree less = .ok () ∧
          ¬requestRule.Complete less := by
  refine ⟨?_, fun tree htree hok => ?_⟩
  · simp only [checkText_eq_ok_iff, Rule.admits_iff_fits]
  · obtain ⟨tree', htree', hadmits⟩ := checkText_eq_ok_iff.1 hok
    cases htree.symm.trans htree'
    have hless : ∀ less, ReflTransGen LeavesOut tree less → checkTree less = .ok () :=
      fun less h => checkTree_eq_ok_iff.2 (Rule.admits_of_leavesOut_all h hadmits)
    refine ⟨hless, fun shape members kind name hreaches hkind hname => ⟨fun part hpart => ?_, ?_⟩⟩
    · obtain ⟨inner, hinner⟩ := Shape.required?_rule hname
      have ha := (Rule.Reaches.member hreaches rfl hinner hpart).admits hadmits
      have hrecord : ∃ parts, part = .record parts := by
        cases part with
        | scalar s => simp [Rule.admits, Rule.admitsScalar] at ha
        | list items => simp [Rule.admits, Rule.item?] at ha
        | record parts => exact ⟨parts, rfl⟩
      obtain ⟨parts, rfl⟩ := hrecord
      exact ⟨inner, parts, rfl, ha⟩
    · obtain ⟨less, h, hincomplete⟩ := exists_incomplete hreaches hkind hname
      exact ⟨less, h, hless less h, hincomplete⟩

namespace Shelf

/-- A request for one struct, with its payload or without. -/
def text (payload : String) : String :=
  "\x7b\"nodes\":[\x7b\"id\":1,\"kind\":\"struct\",\"displayName\":\"a:S\"" ++ payload
    ++ "\x7d]\x7d"

def marks (payload : List Mark) : List Mark :=
  [.openRecord, .text "nodes", .colon, .openList, .openRecord, .text "id", .colon,
    .number (.ofInt 1) "1", .comma, .text "kind", .colon, .text "struct", .comma,
    .text "displayName", .colon, .text "a:S"] ++ payload ++ [.closeRecord, .closeList, .closeRecord]

def node (payload : List (String × Tree)) : List (String × Tree) :=
  [("id", .scalar (.number (.ofInt 1) "1")), ("kind", .ofText "struct"),
    ("displayName", .ofText "a:S")] ++ payload

def tree (payload : List (String × Tree)) : Tree :=
  .record [("nodes", .list [.record (node payload)])]

theorem reaches_node (payload : List (String × Tree)) :
    requestRule.Reaches (tree payload) (.record .node) (.record (node payload)) :=
  .item (.member .whole rfl rfl List.mem_cons_self) rfl List.mem_cons_self

/-- A struct without payload. -/
theorem readText?_bare : readText? (text "").toList = some (tree []) := by
  have hunmarked : unmarked? (text "").toList = some (text "").toList := by decide +kernel
  have hmarks : marks? (text "").toList = some (marks []) := by decide +kernel
  have hparts : parts? none (4 * (marks []).length + 4) (marks []) =
      some ([.whole (tree [])], []) := rfl
  simp only [readText?, hunmarked, hmarks, hparts, bind, Option.bind]
  rfl

/-- A struct with an empty payload. -/
theorem readText?_filled :
    readText? (text ",\"struct\":\x7b\x7d").toList = some (tree [("struct", .record [])]) := by
  let s := text ",\"struct\":\x7b\x7d"
  let payload : List Mark := [.comma, .text "struct", .colon, .openRecord, .closeRecord]
  have hunmarked : unmarked? s.toList = some s.toList := by decide +kernel
  have hmarks : marks? s.toList = some (marks payload) := by decide +kernel
  have hparts : parts? none (4 * (marks payload).length + 4) (marks payload) =
      some ([.whole (tree [("struct", .record [])])], []) := rfl
  simp only [readText?, s, hunmarked, hmarks, hparts, bind, Option.bind]
  rfl

end Shelf

/-- A struct with its payload is accepted, and so is what is left of it without the payload. -/
theorem accepted_iff_present_members_fit_shelf :
    checkText (Shelf.text ",\"struct\":\x7b\x7d") = .ok () ∧
    (∃ inner parts, Tree.record [] = .record parts ∧
      (Rule.record inner).admits (.record []) = true) ∧
    ∃ less, ReflTransGen LeavesOut (Shelf.tree [("struct", .record [])]) less ∧
      checkTree less = .ok () ∧ ¬requestRule.Complete less := by
  have hok : checkText (Shelf.text ",\"struct\":\x7b\x7d") = .ok () :=
    checkText_eq_ok_iff.2 ⟨_, Shelf.readText?_filled, rfl⟩
  obtain ⟨-, hall⟩ := accepted_iff_present_members_fit (Shelf.text ",\"struct\":\x7b\x7d")
  obtain ⟨-, hrequired⟩ := hall _ Shelf.readText?_filled hok
  obtain ⟨hthere, hless⟩ := hrequired .node _ "struct" "struct" (Shelf.reaches_node _)
    (by simp [Shelf.node]) rfl
  exact ⟨hok, hthere (.record []) (by simp [Shelf.node]), hless⟩

/-- The contract requires the payload of a struct, and a struct without it is accepted. -/
theorem struct_without_payload_accepted :
    checkText (Shelf.text "") = .ok () ∧
    readText? (Shelf.text "").toList = some (Shelf.tree []) ∧
    ¬requestRule.Complete (Shelf.tree []) := by
  refine ⟨checkText_eq_ok_iff.2 ⟨_, Shelf.readText?_bare, rfl⟩, Shelf.readText?_bare, ?_⟩
  intro hcomplete
  obtain ⟨part, hpart⟩ := hcomplete .node _ "struct" "struct" (Shelf.reaches_node [])
    (by simp [Shelf.node]) rfl
  simp [Shelf.node] at hpart

end SchemaBindings.Contract
