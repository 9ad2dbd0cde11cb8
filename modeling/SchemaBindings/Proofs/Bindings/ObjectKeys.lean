import SchemaBindings.Proofs.Bindings.MemberNames
import SchemaBindings.Proofs.Bindings.UnionTags

namespace SchemaBindings.Bindings

open SchemaBindings.Schema SchemaBindings.Layout SchemaBindings.Text SchemaBindings.Outcome

/-- Whether a constant is defined for a node. Capabilities and untyped pointers have no constants. -/
def definesConstant (n : Node) : Bool :=
  match n.kind, n.const? with
  | .constNode, some c => c.type.kind != .interface && c.type.kind != .anyPointer
  | _, _ => false

/-- The key under which a node is defined in an object. -/
def nodeKey? (n : Node) (name : String) : Option String :=
  if n.isObject then some name
  else if definesConstant n then some (upperSnake name)
  else none

def entryKey? (g : Graph) (entry : NamedId) : Option String :=
  (g.find? entry.id).bind fun m => nodeKey? m entry.name

def nestedObjects (g : Graph) (n : Node) : List String :=
  (n.nested.filter fun entry => (g.find? entry.id).any Node.isObject).map NamedId.name

def nestedConstants (g : Graph) (n : Node) : List String :=
  (n.nested.filter fun entry => (g.find? entry.id).any definesConstant).map NamedId.name

def groupNames (s : StructInfo) : List String :=
  s.groups.map Prod.fst

/-- The names of the members of a union, where the struct declares one. -/
def unionNames (s : StructInfo) : List String :=
  if s.hasUnion then (s.fields.filter Field.inUnion).map Field.name else []

/-- The keys of a struct's object, in order. -/
def structKeys (g : Graph) (n : Node) (s : StructInfo) : List String :=
  n.nested.filterMap (entryKey? g) ++ (groupNames s).map titleCase
    ++ (unionNames s).map upperSnake ++ StructBody.commonKeys

/-- The keys of an enum's object, in order. -/
def enumKeys (enumerants : List String) : List String :=
  enumerants.map upperSnake ++ ["VALUE_NAMES"]

/-- A text defines a member of an object. -/
def IsMember (key text : String) : Prop :=
  ∃ depth value, text = indent depth ++ (key ++ ": " ++ value)

theorem StructBody.Keyed.isMember {depth : Nat} {key : String × Option UInt16} {text : String}
    (h : Keyed depth key text) : IsMember key.1 text := by
  obtain ⟨value, htext, -⟩ := h
  exact ⟨depth, value, htext⟩

theorem Placement.object_isMember {p : Placement} (h : p.topLevel = false) (members : String) :
    IsMember p.name (p.object members) := by
  have hsplit : ": function() \x7b\n" = ": " ++ "function() \x7b\n" := rfl
  refine ⟨p.depth, "function() \x7b\n" ++ indent (p.depth + 1) ++ "return \x7b\n" ++ members
    ++ indent (p.depth + 1) ++ "\x7d;\n" ++ indent p.depth ++ "\x7d(),\n", ?_⟩
  simp only [object, h, hsplit, Bool.false_eq_true, if_false, String.append_assoc]

theorem Placement.constant_isMember {p : Placement} (h : p.topLevel = false) (expression : String) :
    IsMember (upperSnake p.name) (p.constant expression) := by
  refine ⟨p.depth, expression ++ ",\n", ?_⟩
  simp only [constant, h, Bool.false_eq_true, if_false, String.append_assoc]

theorem constExpr_isSome {context : FileContext} {used used' : UsedFiles} {n : Node}
    {value? : Option ConstExpr} (hk : n.kind = .constNode)
    (h : Generation.run (constExpr n) context used = (.ok value?, used')) :
    value?.isSome = definesConstant n := by
  obtain ⟨c, hc, hvalue⟩ := constExpr_cases h
  simp only [definesConstant, hk, hc]
  cases hkind : c.type.kind with
  | text | data | struct | list =>
    simp only [hkind] at hvalue
    obtain ⟨value, rfl, -⟩ := hvalue
    rfl
  | interface | anyPointer =>
    simp only [hkind] at hvalue
    rw [hvalue]
    rfl
  | _ =>
    simp only [hkind] at hvalue
    obtain ⟨value, rfl⟩ := hvalue
    rfl

section Declared

variable {context : FileContext} {path name : String} {n : Node} {d : Declaration}

/-- A text defines a member if there is a key for it, and is empty if there is none. -/
def Defined (key? : Option String) (text : String) : Prop :=
  match key? with
  | some key => IsMember key text
  | none => text = ""

theorem DeclaredAs.defined (h : DeclaredAs context path name n d) (hp : path ≠ "") :
    Defined (nodeKey? n name) d.text := by
  have hplace : d.place.topLevel = false := by
    rw [h.place_topLevel]
    simpa using hp
  have hobject := h.isObject_eq
  unfold nodeKey?
  cases hn : n.isObject with
  | true =>
    obtain ⟨members, htext⟩ := Declaration.exists_members (hobject.trans hn)
    rw [htext, ← h.place_name]
    exact Placement.object_isMember hplace members
  | false =>
    rw [hn] at hobject
    obtain ⟨depth, body, nested, groups, rfl, -, -, u, u', hbody⟩ := h.parts
    cases hbody with
    | struct | enum => cases hobject
    | @constant value? hk hrun =>
      have hsome := constExpr_isSome hk hrun
      cases value? with
      | none =>
        rw [← hsome, Declaration.text]
        rfl
      | some value =>
        rw [← hsome, Declaration.text]
        exact Placement.constant_isMember hplace value.expression
    | scope hk =>
      have hempty : (nested ++ groups).isEmpty = true := by
        simpa [Declaration.isObject] using hobject
      have hnone : definesConstant n = false := by simp [definesConstant, hk]
      rw [hnone, Declaration.text, if_pos hempty]
      rfl
    | nothing hk =>
      have hnone : definesConstant n = false := by
        rcases hk with hk | hk | hk <;> simp [definesConstant, hk]
      rw [hnone, Declaration.text]
      rfl

/-- A group has slots to be cleared, so it is a struct. -/
theorem DeclaredAs.group_isObject {b : StructBody} (h : DeclaredAs context path name n d)
    (hd : d.body = .struct b) {group : String × UInt64} {m : Node} (hgroup : group ∈ n.groups)
    (hm : context.graph.find? group.2 = some m) : m.isObject = true := by
  obtain ⟨u, u', hrun⟩ := h.run_structBody hd
  obtain ⟨hstruct, -, hbound⟩ := h.isBound hd
  obtain ⟨-, s, hs, f, hf, -, hbody⟩ := Node.mem_groups.1 hgroup
  obtain rfl : b.info = s := Option.some.inj (hstruct.symm.trans hs)
  obtain ⟨fb, hb⟩ := hbound.exists_binds hf
  obtain ⟨-, v, v', hfield⟩ := (structBody_eq_ok hstruct hrun).2 f fb hb
  obtain ⟨accessors, -, ⟨slot, _, _, hslot, -⟩ | ⟨id, m', slots, hid, hm', hslots, -⟩⟩ :=
    fieldBindings_eq_ok hfield
  · rw [hbody] at hslot
    cases hslot
  · rw [hbody] at hid
    cases hid
    cases hm.symm.trans hm'
    obtain ⟨all, hall, -⟩ := occupied_eq_ok hslots
    cases hdepth : context.graph.depthBound with
    | zero =>
      rw [hdepth] at hall
      cases hall
    | succ depth =>
      rw [hdepth, candidates_succ_eq_ok_iff] at hall
      rw [Node.isObject, hall.1]

end Declared

theorem Declaration.textList_append (ds ds' : List Declaration) :
    textList (ds ++ ds') = textList ds ++ textList ds' := by
  induction ds with
  | nil => simp [textList]
  | cons d ds ih => rw [List.cons_append, textList, textList, ih, String.append_assoc]

theorem Declaration.text_of_struct {d : Declaration} {b : StructBody} (h : d.body = .struct b) :
    d.text = d.place.object (textList d.children ++ b.members d.place.name (d.place.depth + 2)) := by
  cases d with
  | mk place entry body children =>
    cases h
    rw [text]
    rfl

/-- A text is made of the members of an object, which has the given keys. -/
def HasKeys (keys : List String) (text : String) : Prop :=
  ∃ texts, text = String.join texts ∧ List.Forall₂ IsMember keys texts

theorem HasKeys.append {keys keys' : List String} {text text' : String} (h : HasKeys keys text)
    (h' : HasKeys keys' text') : HasKeys (keys ++ keys') (text ++ text') := by
  obtain ⟨texts, rfl, hkeys⟩ := h
  obtain ⟨texts', rfl, hkeys'⟩ := h'
  exact ⟨texts ++ texts', by rw [String.join_append], List.rel_append hkeys hkeys'⟩

theorem hasKeys_textList {α : Type} {key? : α → Option String} {entries : List α}
    {ds : List Declaration} (h : List.Forall₂ (fun e d => Defined (key? e) d.text) entries ds) :
    HasKeys (entries.filterMap key?) (Declaration.textList ds) := by
  induction h with
  | nil => exact ⟨[], rfl, .nil⟩
  | @cons e d entries ds hd _ ih =>
    obtain ⟨texts, htexts, hkeys⟩ := ih
    rw [Declaration.textList, htexts]
    cases hkey : key? e with
    | none =>
      rw [hkey] at hd
      rw [List.filterMap_cons_none hkey, hd, String.empty_append]
      exact ⟨texts, rfl, hkeys⟩
    | some key =>
      rw [hkey] at hd
      rw [List.filterMap_cons_some hkey]
      exact ⟨d.text :: texts, by rw [String.join_cons], .cons hd hkeys⟩

theorem StructBody.members_hasKeys (b : StructBody) (name : String) (depth : Nat) :
    HasKeys ((unionNames b.info).map upperSnake ++ commonKeys) (b.members name depth) := by
  obtain ⟨texts, htext, hkeyed⟩ := b.members_keyed name depth
  have hkeys : (unionNames b.info).map upperSnake ++ commonKeys = b.keys.map Prod.fst := by
    have hcommon : (commonKeys.map fun key => (key, (none : Option UInt16))).map Prod.fst =
        commonKeys := rfl
    rw [keys, List.map_append, List.map_map, hcommon, tagConstants, unionNames]
    split_ifs
    · rw [List.map_map, List.map_map]
      rfl
    · rfl
  refine ⟨texts, htext, ?_⟩
  rw [hkeys, List.forall₂_map_left_iff]
  exact hkeyed.imp fun _ _ h => h.isMember

theorem enumMembers_hasKeys (depth : Nat) (names : List String) :
    HasKeys (enumKeys names) (enumMembers depth names) := by
  refine ⟨_, rfl, ?_⟩
  have hmember : ∀ key value : String,
      IsMember key (indent depth ++ (key ++ ": " ++ value) ++ "\n") := by
    intro key value
    refine ⟨depth, value ++ "\n", ?_⟩
    simp only [String.append_assoc]
  have hnames : names.map upperSnake = names.zipIdx.map fun e => upperSnake e.1 := by
    calc names.map upperSnake = (names.zipIdx.map Prod.fst).map upperSnake := by
          rw [List.zipIdx_map_fst]
      _ = names.zipIdx.map fun e => upperSnake e.1 := List.map_map
  rw [enumKeys, hnames, List.map_append]
  apply List.rel_append
  · rw [List.map_map, List.forall₂_map_left_iff, List.forall₂_map_right_iff, List.forall₂_same]
    intro e _
    have hsplit : upperSnake e.1 ++ ": " ++ decimal e.2 ++ "," =
        upperSnake e.1 ++ ": " ++ (decimal e.2 ++ ",") := by
      simp only [String.append_assoc]
    change IsMember _ (indent depth ++ (upperSnake e.1 ++ ": " ++ decimal e.2 ++ ",") ++ "\n")
    rw [hsplit]
    exact hmember _ _
  · have hsplit : "VALUE_NAMES: [" ++ quotedNames names ++ "]," =
        "VALUE_NAMES" ++ ": " ++ ("[" ++ quotedNames names ++ "],") := by
      have hstart : "VALUE_NAMES: [" = "VALUE_NAMES" ++ ": " ++ "[" := rfl
      rw [hstart]
      simp only [String.append_assoc]
    rw [List.map_singleton, hsplit]
    exact .cons (hmember _ _) .nil

section Declared

variable {context : FileContext} {path name : String} {n : Node} {d : Declaration}

/-- The members of a struct's object are what is nested in it, its groups, the constants of its
union and what all structs have. -/
theorem DeclaredAs.struct_hasKeys {b : StructBody} (h : DeclaredAs context path name n d)
    (hd : d.body = .struct b) (hp : joinPath path name ≠ "") :
    HasKeys (structKeys context.graph n b.info)
      (Declaration.textList d.children ++ b.members d.place.name (d.place.depth + 2)) := by
  have hgroupObject := @h.group_isObject _ _ _ _ _ _ hd
  obtain ⟨hstruct, -, -⟩ := h.isBound hd
  obtain ⟨depth, body, nested, groups, rfl, hnested, hgroups, u, u', hbody⟩ := h.parts
  have hkind : n.kind = .structNode := by
    cases hbody with
    | struct hk => exact hk
    | enum | constant | scope | nothing => cases hd
  have hnestedKeys : HasKeys (n.nested.filterMap (entryKey? context.graph))
      (Declaration.textList nested) := by
    refine hasKeys_textList (hnested.imp ?_)
    rintro entry child ⟨m, hm, hchild⟩
    rw [entryKey?, hm]
    exact hchild.defined hp
  have hgroupKeys : HasKeys ((groupNames b.info).map titleCase) (Declaration.textList groups) := by
    have hsome : (groupNames b.info).map titleCase =
        n.groups.filterMap fun group => some (titleCase group.1) := by
      rw [groupNames, Node.groups, hkind, hstruct, List.map_map, List.filterMap_eq_map']
      rfl
    rw [hsome]
    refine hasKeys_textList ?_
    rw [List.forall₂_iff_zip] at hgroups ⊢
    refine ⟨hgroups.1, ?_⟩
    intro group child hzip
    obtain ⟨m, hm, hchild⟩ := hgroups.2 hzip
    have hdefined := hchild.defined hp
    rw [nodeKey?, if_pos (hgroupObject (List.of_mem_zip hzip).1 hm)] at hdefined
    exact hdefined
  change HasKeys _ (Declaration.textList (nested ++ groups) ++ _)
  rw [structKeys, Declaration.textList_append, List.append_assoc]
  exact (hnestedKeys.append hgroupKeys).append (b.members_hasKeys _ _)

theorem DeclaredAs.enum_hasKeys {names : List String} (h : DeclaredAs context path name n d)
    (hd : d.body = .enum (some names)) :
    (n.enumerants?.map fun es => es.map Member.name) = some names ∧
      ∃ members, d.text = d.place.object members ∧ HasKeys (enumKeys names) members := by
  obtain ⟨depth, body, nested, groups, rfl, -, -, u, u', hbody⟩ := h.parts
  cases hbody with
  | enum =>
    have hnames := Body.enum.inj hd
    refine ⟨hnames, _, ?_, enumMembers_hasKeys (depth + 2) names⟩
    rw [hnames, Declaration.text]
    rfl
  | struct | constant | scope | nothing => cases hd

end Declared

/-- The constants with the keys of the tables and sizes that every struct has. -/
def tableNames : List String :=
  ["StructSize", "ElementSize", "FieldList", "FieldsByDiscriminant"]

/-- The names in a struct lead to different keys: groups are called like nothing that is nested, and
union members like no constant, when they begin with a capital; what has the views' names or those of
the tables is not there; and nothing is called like a constant of one word in capitals. -/
structure NamesApart (objects groups constants members : List String) : Prop where
  objects_groups : ∀ name ∈ objects, ∀ group ∈ groups, name ≠ titleCase group
  constants_members : ∀ name ∈ constants, ∀ member ∈ members, name ≠ titleCase member
  views : ∀ name ∈ objects ++ groups.map titleCase, name ≠ "Reader" ∧ name ≠ "Builder"
  tables : ∀ name ∈ constants ++ members.map titleCase, name ∉ tableNames
  capitals : ∀ name ∈ objects ++ groups.map titleCase,
    ∀ constant ∈ constants ++ members.map titleCase, isOneWord constant = true →
      name ≠ inCapitals constant

theorem mem_commonKeys_iff {name : String} (h : isTypeName name = true) :
    name ∈ StructBody.commonKeys ↔ name = "Reader" ∨ name = "Builder" := by
  have htypes : ∀ key ∈ StructBody.commonKeys, isTypeName key = true →
      key = "Reader" ∨ key = "Builder" := by decide
  constructor
  · intro hmem
    exact htypes name hmem h
  · rintro (rfl | rfl) <;> decide

theorem upperSnake_mem_commonKeys_iff {name : String} (h : isTypeName name = true) :
    upperSnake name ∈ StructBody.commonKeys ↔ name ∈ tableNames := by
  have htables : ∀ table ∈ tableNames, isTypeName table = true ∧
      upperSnake table ∈ StructBody.commonKeys := by decide
  have hcapitals : ∀ key ∈ StructBody.commonKeys,
      (key.toList.all fun c => !c.isLower) = true → key ∈ tableNames.map upperSnake := by
    decide
  constructor
  · intro hmem
    have hlower : ((upperSnake name).toList.all fun c => !c.isLower) = true := by
      rw [List.all_eq_true]
      intro c hc
      rw [isLower_upperSnake name c hc]
      rfl
    obtain ⟨table, htable, heq⟩ := List.mem_map.1 (hcapitals _ hmem hlower)
    rw [upperSnake_inj_of_isTypeName (htables table htable).1 h] at heq
    exact heq ▸ htable
  · intro hmem
    exact (htables name hmem).2

theorem nodup_append_titleCase {names members : List String} (hn : names.Nodup)
    (hm : members.Nodup) (hmembers : ∀ member ∈ members, isMemberName member = true) :
    (names ++ members.map titleCase).Nodup ↔
      ∀ name ∈ names, ∀ member ∈ members, name ≠ titleCase member := by
  have htitles : (members.map titleCase).Nodup := by
    refine hm.map_on ?_
    intro a ha b hb hab
    exact (titleCase_inj (hmembers a ha) (hmembers b hb)).1 hab
  rw [List.nodup_append]
  constructor
  · rintro ⟨-, -, h⟩ name hname member hmember
    exact h name hname _ (List.mem_map_of_mem hmember)
  · intro h
    refine ⟨hn, htitles, ?_⟩
    intro name hname title htitle
    obtain ⟨member, hmember, rfl⟩ := List.mem_map.1 htitle
    exact h name hname member hmember

/-- Keys of objects, of constants and of all structs are distinct where the names are. -/
theorem nodup_keys_iff {objects constants : List String}
    (ho : ∀ name ∈ objects, isTypeName name = true)
    (hc : ∀ name ∈ constants, isTypeName name = true) :
    (objects ++ constants.map upperSnake ++ StructBody.commonKeys).Nodup ↔
      objects.Nodup ∧ constants.Nodup ∧
      (∀ name ∈ objects, name ≠ "Reader" ∧ name ≠ "Builder") ∧
      (∀ name ∈ constants, name ∉ tableNames) ∧
      ∀ name ∈ objects, ∀ constant ∈ constants, isOneWord constant = true →
        name ≠ inCapitals constant := by
  have hcommon : StructBody.commonKeys.Nodup := by decide
  have hconstants : (constants.map upperSnake).Nodup ↔ constants.Nodup := by
    refine ⟨List.Nodup.of_map _, fun h => h.map_on ?_⟩
    intro a ha b hb hab
    exact (upperSnake_inj_of_isTypeName (hc a ha) (hc b hb)).1 hab
  have hcapitals : (∀ name ∈ objects, ∀ key ∈ constants.map upperSnake, name ≠ key) ↔
      ∀ name ∈ objects, ∀ constant ∈ constants, isOneWord constant = true →
        name ≠ inCapitals constant := by
    simp only [List.forall_mem_map]
    refine forall₂_congr fun name hname => forall₂_congr fun constant hconstant => ?_
    rw [ne_eq, eq_upperSnake_iff (ho name hname) (hc constant hconstant), not_and]
  have hfixed : (∀ key ∈ objects ++ constants.map upperSnake, ∀ key' ∈ StructBody.commonKeys,
        key ≠ key') ↔
      (∀ name ∈ objects, name ≠ "Reader" ∧ name ≠ "Builder") ∧
        ∀ name ∈ constants, name ∉ tableNames := by
    simp only [List.forall_mem_append, List.forall_mem_map]
    refine and_congr ?_ ?_
    · refine forall₂_congr fun name hname => ?_
      rw [← not_or, ← mem_commonKeys_iff (ho name hname)]
      exact ⟨fun h hmem => h name hmem rfl, fun h key hkey heq => h (heq ▸ hkey)⟩
    · refine forall₂_congr fun name hname => ?_
      rw [← upperSnake_mem_commonKeys_iff (hc name hname)]
      exact ⟨fun h hmem => h _ hmem rfl, fun h key hkey heq => h (heq ▸ hkey)⟩
  rw [List.nodup_append, List.nodup_append, hconstants, hcapitals, hfixed]
  tauto

theorem filterMap_entryKey?_perm (g : Graph) (entries : List NamedId) :
    (entries.filterMap (entryKey? g)).Perm
      ((entries.filter fun entry => (g.find? entry.id).any Node.isObject).map NamedId.name ++
        ((entries.filter fun entry => (g.find? entry.id).any definesConstant).map
          NamedId.name).map upperSnake) := by
  have hexclusive : ∀ m : Node, m.isObject = true → definesConstant m = false := by
    intro m hm
    unfold definesConstant
    split
    · next hk _ =>
      rw [Node.isObject, hk] at hm
      cases hm
    · rfl
  induction entries with
  | nil => exact .refl _
  | cons entry entries ih =>
    cases hm : g.find? entry.id with
    | none => simpa [entryKey?, hm] using ih
    | some m =>
      cases hobject : m.isObject with
      | true => simpa [entryKey?, nodeKey?, hm, hobject, hexclusive m hobject] using ih
      | false =>
        cases hconstant : definesConstant m with
        | true =>
          have hkey : entryKey? g entry = some (upperSnake entry.name) := by
            simp [entryKey?, nodeKey?, hm, hobject, hconstant]
          rw [List.filterMap_cons_some hkey]
          simpa [hm, hobject, hconstant] using (ih.cons _).trans List.perm_middle.symm
        | false => simpa [entryKey?, nodeKey?, hm, hobject, hconstant] using ih

theorem groupNames_sublist (s : StructInfo) : (groupNames s).Sublist (s.fields.map Field.name) := by
  unfold groupNames StructInfo.groups
  induction s.fields with
  | nil => exact .slnil
  | cons f fields ih =>
    rw [List.filterMap_cons]
    cases f.groupId? with
    | none => exact ih.cons _
    | some id => exact ih.cons_cons _

theorem unionNames_sublist (s : StructInfo) : (unionNames s).Sublist (s.fields.map Field.name) := by
  unfold unionNames
  split_ifs
  · exact List.filter_sublist.map _
  · exact List.nil_sublist _

theorem structKeys_perm (g : Graph) (n : Node) {s : StructInfo}
    (hfields : ∀ f ∈ s.fields, isMemberName f.name = true) :
    (structKeys g n s).Perm ((nestedObjects g n ++ (groupNames s).map titleCase) ++
      (nestedConstants g n ++ (unionNames s).map titleCase).map upperSnake
        ++ StructBody.commonKeys) := by
  have hmembers : (unionNames s).map upperSnake = ((unionNames s).map titleCase).map upperSnake := by
    rw [List.map_map]
    refine List.map_congr_left ?_
    intro name hname
    obtain ⟨f, hf, rfl⟩ := List.mem_map.1 ((unionNames_sublist s).subset hname)
    exact (upperSnake_titleCase (hfields f hf)).symm
  rw [structKeys, List.map_append, hmembers]
  refine List.Perm.append_right _ ?_
  -- the groups change places with the nested constants
  refine (((filterMap_entryKey?_perm g n.nested).append_right _).append_right _).trans ?_
  rw [List.append_assoc, List.append_assoc, List.append_assoc]
  refine List.Perm.append_left _ ?_
  rw [← List.append_assoc, ← List.append_assoc]
  exact List.perm_append_comm.append_right _

/-- Fields are named like members and nested declarations like types, no two fields alike and no two
nested declarations either. -/
structure ProperNames (n : Node) (s : StructInfo) : Prop where
  fields_nodup : (s.fields.map Field.name).Nodup
  fields_names : ∀ f ∈ s.fields, isMemberName f.name = true
  nested_nodup : (n.nested.map NamedId.name).Nodup
  nested_names : ∀ entry ∈ n.nested, isTypeName entry.name = true

theorem structKeys_nodup_iff {g : Graph} {n : Node} {s : StructInfo} (h : ProperNames n s) :
    (structKeys g n s).Nodup ↔
      NamesApart (nestedObjects g n) (groupNames s) (nestedConstants g n) (unionNames s) := by
  have hfield : ∀ name ∈ s.fields.map Field.name, isMemberName name = true :=
    List.forall_mem_map.2 h.fields_names
  have hnested : ∀ name ∈ n.nested.map NamedId.name, isTypeName name = true :=
    List.forall_mem_map.2 h.nested_names
  have hobjects : (nestedObjects g n).Sublist (n.nested.map NamedId.name) :=
    List.filter_sublist.map _
  have hconstants : (nestedConstants g n).Sublist (n.nested.map NamedId.name) :=
    List.filter_sublist.map _
  have htypes : ∀ names members : List String, names.Sublist (n.nested.map NamedId.name) →
      members.Sublist (s.fields.map Field.name) →
      ∀ name ∈ names ++ members.map titleCase, isTypeName name = true := by
    intro names members hnames hmembers name hname
    rcases List.mem_append.1 hname with hname | hname
    · exact hnested name (hnames.subset hname)
    · obtain ⟨member, hmember, rfl⟩ := List.mem_map.1 hname
      exact isTypeName_titleCase (hfield member (hmembers.subset hmember))
  have hapart : ∀ names members : List String, names.Sublist (n.nested.map NamedId.name) →
      members.Sublist (s.fields.map Field.name) →
      ((names ++ members.map titleCase).Nodup ↔
        ∀ name ∈ names, ∀ member ∈ members, name ≠ titleCase member) := by
    intro names members hnames hmembers
    exact nodup_append_titleCase (h.nested_nodup.sublist hnames)
      (h.fields_nodup.sublist hmembers) fun member hm => hfield member (hmembers.subset hm)
  rw [(structKeys_perm g n h.fields_names).nodup_iff,
    nodup_keys_iff (htypes _ _ hobjects (groupNames_sublist s))
      (htypes _ _ hconstants (unionNames_sublist s)),
    hapart _ _ hobjects (groupNames_sublist s), hapart _ _ hconstants (unionNames_sublist s)]
  constructor
  · rintro ⟨hgroups, hmembers, hviews, htables, hcapitals⟩
    exact ⟨hgroups, hmembers, hviews, htables, hcapitals⟩
  · rintro ⟨hgroups, hmembers, hviews, htables, hcapitals⟩
    exact ⟨hgroups, hmembers, hviews, htables, hcapitals⟩

theorem map_upperSnake_nodup {names : List String} (hnodup : names.Nodup)
    (hnames : ∀ name ∈ names, isMemberName name = true) : (names.map upperSnake).Nodup := by
  refine hnodup.map_on ?_
  intro name hname other hother heq
  exact (upperSnake_inj (hnames name hname) (hnames other hother)).1 heq

theorem enumKeys_nodup_iff {names : List String} (hn : names.Nodup)
    (hm : ∀ name ∈ names, isMemberName name = true) :
    (enumKeys names).Nodup ↔ "valueNames" ∉ names := by
  have hvalues : "VALUE_NAMES" = upperSnake "valueNames" := by decide
  rw [enumKeys, List.nodup_append]
  constructor
  · rintro ⟨-, -, h⟩ hmem
    exact h _ (List.mem_map_of_mem hmem) _ (List.mem_singleton.2 rfl) hvalues.symm
  · intro h
    refine ⟨map_upperSnake_nodup hn hm, List.nodup_singleton _, ?_⟩
    intro key hkey key' hkey'
    obtain ⟨name, hname, rfl⟩ := List.mem_map.1 hkey
    rw [List.mem_singleton.1 hkey', hvalues, ne_eq, upperSnake_inj (hm name hname) (by decide)]
    intro heq
    exact h (heq ▸ hname)

/-- In every object that a generated file defines for a struct or an enum, the keys are those that the
schema gives, in order. Where its names are proper, the keys of a struct are distinct exactly if its
names lead apart, and those of an enum exactly if no enumerant takes the key of the list of names. -/
theorem object_keys_distinct_iff (g : Graph) (request : RequestedFile) (out : FileOutput)
    (h : generateFile g request = .ok out) :
    ∃ file source, g.find? request.id = some file ∧ sourceFile ⟨g, request⟩ file = .ok source ∧
      out.source = source.text ∧
      ∀ names d, Declaration.At (fun d => d.body.showsChildren = true) source.declarations names d →
        Within d.text source.definitions ∧
        ∃ n, g.find? n.id = some n ∧ d.entry = .ofNode n ∧
          (∀ b, d.body = .struct b → n.struct? = some b.info ∧
            (∃ members, d.text = d.place.object members ∧
              (dotted names ≠ "" → HasKeys (structKeys g n b.info) members)) ∧
            (ProperNames n b.info → ((structKeys g n b.info).Nodup ↔ NamesApart (nestedObjects g n)
              (groupNames b.info) (nestedConstants g n) (unionNames b.info)))) ∧
          ∀ names, d.body = .enum (some names) →
            (n.enumerants?.map fun es => es.map Member.name) = some names ∧
            (∃ members, d.text = d.place.object members ∧ HasKeys (enumKeys names) members) ∧
            (names.Nodup → (∀ name ∈ names, isMemberName name = true) →
              ((enumKeys names).Nodup ↔ "valueNames" ∉ names)) := by
  obtain ⟨file, source, hfile, -, hsource, rfl⟩ := generateFile_eq_ok h
  obtain ⟨used, hrun, -⟩ := sourceFile_eq_ok hsource
  refine ⟨file, source, hfile, hsource, rfl, ?_⟩
  intro names d hat
  obtain ⟨outer, n, rfl, hn, hdecl⟩ := hat.declaredAs (fileDeclarations_declaredAs hrun)
  refine ⟨hat.text_within, n, hn, hdecl.entry_eq, ?_, ?_⟩
  · intro b hb
    obtain ⟨hstruct, -, -⟩ := hdecl.isBound hb
    refine ⟨hstruct, ?_, structKeys_nodup_iff⟩
    refine ⟨_, Declaration.text_of_struct hb, ?_⟩
    intro hpath
    rw [dotted_append] at hpath
    exact hdecl.struct_hasKeys hb hpath
  · intro enumerants hb
    obtain ⟨hnames, hmembers⟩ := hdecl.enum_hasKeys hb
    exact ⟨hnames, hmembers, enumKeys_nodup_iff⟩

namespace Shelves

/-- What stands on the shelf, or that it is empty. -/
def info : StructInfo :=
  ⟨1, 1, 7, false, 2, 0,
    [⟨"label", 0, noDiscriminant, .slot ⟨0, .plain .text 0, .zero .text, 0⟩⟩,
      ⟨"empty", 1, 0, .slot ⟨0, .plain .void 0, .zero .void, 0⟩⟩,
      ⟨"books", 2, 1, .group 5⟩]⟩

def books : Node :=
  { (default : Node) with
    id := 5
    kind := .structNode
    displayName := "shelves.capnp:Shelf.books"
    scopeId := 2
    struct? := some ⟨1, 1, 7, true, 0, 0,
      [⟨"count", 0, noDiscriminant, .slot ⟨1, .plain .uint16 0, .zero .uint16, 0⟩⟩]⟩ }

def maxCount : Node :=
  { (default : Node) with
    id := 4
    kind := .constNode
    displayName := "shelves.capnp:Shelf.MaxCount"
    scopeId := 2
    const? := some ⟨.plain .uint16 0, { Value.zero .uint16 with uint := 40 }, 0⟩ }

/-- A struct or enum of a shelf, under a name of its own. -/
def kind (name : String) : Node :=
  { (default : Node) with
    id := 3
    kind := .enumNode
    displayName := "shelves.capnp:Shelf." ++ name
    scopeId := 2
    enumerants? := some [⟨"wood", 0⟩, ⟨"steel", 1⟩] }

def shelf (name : String) : Node :=
  { (default : Node) with
    id := 2
    kind := .structNode
    displayName := "shelves.capnp:Shelf"
    scopeId := 1
    nested := [⟨name, 3⟩, ⟨"MaxCount", 4⟩]
    struct? := some info }

def file : Node :=
  { (default : Node) with
    id := 1
    kind := .fileNode
    displayName := "shelves.capnp"
    nested := [⟨"Shelf", 2⟩] }

def graph (name : String) : Graph :=
  ⟨[file, shelf name, kind name, maxCount, books], by simp [file, shelf, kind, maxCount, books]⟩

def requested : RequestedFile :=
  ⟨1, "shelves.capnp", []⟩

end Shelves

/-- A shelf with an enum, a constant, a group and a union in it. -/
theorem object_keys_distinct_iff_shelf :
    ∃ out source d b, generateFile (Shelves.graph "Material") Shelves.requested = .ok out ∧
      sourceFile ⟨Shelves.graph "Material", Shelves.requested⟩ Shelves.file = .ok source ∧
      Declaration.At (fun d => d.body.showsChildren = true) source.declarations ["Shelf"] d ∧
      d.body = .struct b ∧ ProperNames (Shelves.shelf "Material") b.info ∧
      (∃ members, d.text = d.place.object members ∧ HasKeys (["Material", "MAX_COUNT", "Books",
        "EMPTY", "BOOKS"] ++ StructBody.commonKeys) members) ∧
      (["Material", "MAX_COUNT", "Books", "EMPTY", "BOOKS"] ++ StructBody.commonKeys).Nodup := by
  obtain ⟨file, source, hfile, hsource, -, hall⟩ :=
    object_keys_distinct_iff (Shelves.graph "Material") Shelves.requested _ rfl
  cases hfile
  have hat : ∃ d b, Declaration.At (fun d => d.body.showsChildren = true) source.declarations
      ["Shelf"] d ∧ d.entry.id = 2 ∧ d.body = .struct b ∧ b.info = Shelves.info := by
    cases hsource
    exact ⟨_, _, .top List.mem_cons_self, rfl, rfl, rfl⟩
  obtain ⟨d, b, hat, hentry, hb, hinfo⟩ := hat
  obtain ⟨-, n, hn, hnode, hstruct, -⟩ := hall ["Shelf"] d hat
  obtain ⟨-, ⟨members, htext, hkeys⟩, hiff⟩ := hstruct b hb
  have hid : n.id = 2 := by
    rw [hnode] at hentry
    exact hentry
  rw [hid] at hn
  cases hn
  have hproper : ProperNames (Shelves.shelf "Material") b.info := by
    rw [hinfo]
    exact ⟨by decide, by decide, by decide, by decide⟩
  have hlist : structKeys (Shelves.graph "Material") (Shelves.shelf "Material") b.info =
      ["Material", "MAX_COUNT", "Books", "EMPTY", "BOOKS"] ++ StructBody.commonKeys := by
    rw [hinfo]
    rfl
  have hapart : NamesApart (nestedObjects (Shelves.graph "Material") (Shelves.shelf "Material"))
      (groupNames b.info) (nestedConstants (Shelves.graph "Material") (Shelves.shelf "Material"))
      (unionNames b.info) := by
    rw [hinfo]
    exact ⟨by decide, by decide, by decide, by decide, by decide⟩
  rw [← hlist]
  exact ⟨_, source, d, b, rfl, hsource, hat, hb, hproper, ⟨members, htext, hkeys (by decide)⟩,
    (hiff hproper).2 hapart⟩

/-- An enum that is called like a view. The object of the shelf has both under one key, though the
names are proper. -/
theorem nested_name_taken_by_view :
    ProperNames (Shelves.shelf "Reader") Shelves.info ∧
    ∃ out source d members, generateFile (Shelves.graph "Reader") Shelves.requested = .ok out ∧
      sourceFile ⟨Shelves.graph "Reader", Shelves.requested⟩ Shelves.file = .ok source ∧
      out.source = source.text ∧ source.declarations = [d] ∧ d.text = d.place.object members ∧
      HasKeys (["Reader", "MAX_COUNT", "Books", "EMPTY", "BOOKS"] ++ StructBody.commonKeys) members ∧
      ¬(["Reader", "MAX_COUNT", "Books", "EMPTY", "BOOKS"] ++ StructBody.commonKeys).Nodup := by
  refine ⟨⟨by decide, by decide, by decide, by decide⟩, ?_⟩
  have hsource : ∃ out source, generateFile (Shelves.graph "Reader") Shelves.requested = .ok out ∧
      sourceFile ⟨Shelves.graph "Reader", Shelves.requested⟩ Shelves.file = .ok source ∧
      out.source = source.text := ⟨_, _, rfl, rfl, rfl⟩
  obtain ⟨out, source, hout, hsource, htext⟩ := hsource
  obtain ⟨used, hrun, -⟩ := sourceFile_eq_ok hsource
  have hdeclared : ∃ d b, source.declarations = [d] ∧ d.entry.id = 2 ∧ d.place.name = "Shelf" ∧
      d.body = .struct b ∧ b.info = Shelves.info := by
    cases hsource
    exact ⟨_, _, rfl, rfl, rfl, rfl, rfl⟩
  obtain ⟨d, b, hds, hentry, hname, hb, hinfo⟩ := hdeclared
  obtain ⟨n, hn, hdecl⟩ := fileDeclarations_declaredAs hrun d (by simp [hds])
  rw [hdecl.entry_eq] at hentry
  have hfind := hn
  rw [show n.id = 2 from hentry] at hfind
  obtain rfl : Shelves.shelf "Reader" = n := Option.some.inj hfind
  have hkeys := hdecl.struct_hasKeys hb (by rw [hname]; decide)
  rw [hinfo] at hkeys
  exact ⟨out, source, d, _, hout, hsource, htext, hds, Declaration.text_of_struct hb, hkeys,
    by decide⟩

end SchemaBindings.Bindings
