import SchemaBindings.Bindings.File
import SchemaBindings.Proofs.Bindings.Execution

namespace SchemaBindings.Bindings

open SchemaBindings.Schema SchemaBindings.Layout SchemaBindings.Text

/-- A text stands somewhere inside another. -/
def Within (part text : String) : Prop :=
  part.toList <:+: text.toList

namespace Within

variable {part text before after : String}

instance : Decidable (Within part text) :=
  inferInstanceAs (Decidable (part.toList <:+: text.toList))

theorem refl (text : String) : Within text text :=
  List.infix_refl _

theorem trans {whole : String} (h : Within part text) (h' : Within text whole) :
    Within part whole :=
  List.IsInfix.trans h h'

theorem left (h : Within part before) : Within part (before ++ after) := by
  unfold Within
  rw [String.toList_append]
  exact List.IsInfix.trans h (List.prefix_append _ _).isInfix

theorem right (h : Within part after) : Within part (before ++ after) := by
  unfold Within
  rw [String.toList_append]
  exact List.IsInfix.trans h (List.suffix_append _ _).isInfix

theorem join {texts : List String} (h : text ∈ texts) : Within text (String.join texts) := by
  obtain ⟨l, r, rfl⟩ := List.append_of_mem h
  rw [String.join_append, String.join_cons]
  exact (refl text).left.right

theorem intercalate {texts : List String} (between : String) (h : text ∈ texts) :
    Within text (between.intercalate texts) := by
  induction texts with
  | nil => cases h
  | cons first texts ih =>
    cases texts with
    | nil =>
      rw [String.intercalate_singleton, List.mem_singleton.1 h]
      exact refl first
    | cons next texts =>
      rw [String.intercalate_cons_cons]
      rcases List.mem_cons.1 h with rfl | h
      · exact (refl text).left.left
      · exact (ih h).right

end Within

theorem Spaced.within {parts : List String} {part text : String} (h : Spaced parts text)
    (hp : part ∈ parts) : Within part text := by
  induction h with
  | nil => cases hp
  | cons _ _ ih =>
    rcases List.mem_cons.1 hp with rfl | hp
    · exact (Within.refl _).left.right
    · exact (ih hp).right.right

/-- The declarations that a type expression names. -/
def TypeExpr.names : TypeExpr → List QualifiedName
  | declared name => [name]
  | list _ element => element.names
  | runtime _ | untyped => []

def Literal.names : Literal → List QualifiedName
  | enumerant type _ => [type]
  | _ => []

def Argument.names : Argument → List QualifiedName
  | classOf type | sizeOf type => type.names
  | _ => []

def PointerFunction.names : PointerFunction → List QualifiedName
  | helper _ => []
  | classMethod type _ => type.names

def Call.names : Call → List QualifiedName
  | storage _ _ _ rest => rest.flatMap Argument.names
  | pointer function type? _ _ rest =>
    function.names ++ type?.toList.flatMap Argument.names ++ rest.flatMap Argument.names

def Answer.names : Answer → List QualifiedName
  | undefined | groupView .. => []
  | anyOf tests => tests.flatMap fun test => test.call.names
  | result call => call.names
  | structView type _ call => type.names ++ call.names

def Statement.names : Statement → List QualifiedName
  | perform call => call.names
  | answer value => value.names
  | answerFalseUnless _ | failUnless .. => []

def FieldBindings.names (b : FieldBindings) (view : View) : List QualifiedName :=
  (b.accessorsOf view).flatMap fun a => (b.body view a.1 a.2).flatMap Statement.names

def StructBody.names (b : StructBody) : List QualifiedName :=
  b.bindings.flatMap (FieldBindings.names · .reader)
    ++ b.bindings.flatMap (FieldBindings.names · .builder)

def ConstExpr.names : ConstExpr → List QualifiedName
  | literal value => value.names
  | struct type _ _ | list type _ _ => type.names
  | text .. | data .. => []

namespace Body

def names : Body → List QualifiedName
  | struct b => b.names
  | constant value? => (value?.map ConstExpr.names).getD []
  | enum _ | scope | nothing => []

/-- Whether the definitions of what is declared inside stand in that of the declaration. -/
def showsChildren : Body → Bool
  | struct _ | scope => true
  | enum _ | constant _ | nothing => false

end Body

namespace Declaration

mutual

/-- The declarations that the definition of a declaration names. -/
def names : Declaration → List QualifiedName
  | mk _ _ body children => (if body.showsChildren then namesList children else []) ++ body.names

def namesList : List Declaration → List QualifiedName
  | [] => []
  | d :: ds => d.names ++ namesList ds

end

theorem namesList_eq (ds : List Declaration) : namesList ds = ds.flatMap names := by
  induction ds with
  | nil => rfl
  | cons d ds ih => rw [namesList, ih, List.flatMap_cons]

end Declaration

/-- The declarations that the definitions of a file name, by type expressions and enum constants. -/
def SourceFile.names (f : SourceFile) : List QualifiedName :=
  Declaration.namesList f.declarations

variable {q : QualifiedName}

theorem UnionTag.guard_names (t : UnionTag) (verb : Verb) : (t.guard verb).names = [] := by
  cases verb <;> rfl

theorem FieldBindings.mem_names {b : FieldBindings} {view : View} :
    q ∈ b.names view ↔ ∃ a ∈ b.accessorsOf view, ∃ s ∈ a.2.statements view, q ∈ s.names := by
  simp only [names, body, List.mem_flatMap, List.mem_append, Option.mem_toList,
    Option.map_eq_some_iff]
  constructor
  · rintro ⟨a, ha, s, ⟨t, ht, rfl⟩ | hs, hq⟩
    · rw [UnionTag.guard_names] at hq
      cases hq
    · exact ⟨a, ha, s, hs, hq⟩
  · rintro ⟨a, ha, s, hs, hq⟩
    exact ⟨a, ha, s, Or.inr hs, hq⟩

/-- Fields with these accessors name some declarations, the same in both views. -/
def AccessorsName (accessors : List (Verb × Operation)) (names : List QualifiedName) : Prop :=
  ∀ scope name tag? view q, q ∈ FieldBindings.names ⟨scope, name, tag?, accessors⟩ view ↔ q ∈ names

theorem accessorsName_nil {accessors : List (Verb × Operation)}
    (h : ∀ a ∈ accessors, ∀ view, ∀ s ∈ a.2.statements view, s.names = []) :
    AccessorsName accessors [] := by
  intro scope name tag? view q
  rw [FieldBindings.mem_names]
  simp only [List.not_mem_nil, iff_false]
  rintro ⟨a, ha, s, hs, hq⟩
  have hmem : a ∈ accessors := by
    cases view with
    | reader => exact (List.mem_filter.1 ha).1
    | builder => exact ha
  rw [h a hmem view s hs] at hq
  cases hq

theorem voidAccessors_name : AccessorsName voidAccessors [] :=
  accessorsName_nil (by simp [voidAccessors, Operation.statements, Statement.names, Answer.names])

theorem maskArguments_names (mask? : Option Mask) :
    (maskArguments mask?).flatMap Argument.names = [] := by
  cases mask? <;> rfl

theorem dataAccessors_name (slot : SlotField) : AccessorsName (dataAccessors slot) [] :=
  accessorsName_nil (by
    simp [dataAccessors, Operation.statements, Statement.names, Answer.names, Call.names,
      Argument.names, maskArguments_names])

theorem slotTest_names (view : View) (s : Slot) : (slotTest view s).call.names = [] := by
  unfold slotTest
  split <;> rfl

theorem slotClear_names (s : Slot) : (slotClear s).names = [] := by
  unfold slotClear
  split <;> rfl

theorem groupAccessors_name (type : String) (slots : List Slot) :
    AccessorsName (groupAccessors type slots) [] := by
  apply accessorsName_nil
  intro a ha view s hs
  simp only [groupAccessors, List.mem_cons, List.not_mem_nil, or_false] at ha
  rcases ha with rfl | rfl | rfl
  · obtain rfl := List.mem_singleton.1 hs
    simp [Statement.names, Answer.names, slotTest_names]
  · obtain rfl := List.mem_singleton.1 hs
    rfl
  · rcases List.mem_append.1 hs with hs | hs
    · obtain ⟨slot, -, rfl⟩ := List.mem_map.1 hs
      exact slotClear_names slot
    · obtain rfl := List.mem_singleton.1 hs
      rfl

theorem PointerDefault.arguments_names (default? : Option PointerDefault) :
    ((default?.map PointerDefault.arguments).getD []).flatMap Argument.names = [] := by
  cases default? with
  | none => rfl
  | some d => cases h : d.size? <;> simp [PointerDefault.arguments, Argument.names, h]

/-- Reading a pointer already names its class, so both views of a pointer field do. -/
theorem pointerAccessors_name (shape : PointerShape) (index : UInt32)
    (default? : Option PointerDefault) :
    AccessorsName (pointerAccessors shape index default?) shape.typeExpr.names := by
  intro scope name tag? view q
  have hdefault := PointerDefault.arguments_names default?
  rw [FieldBindings.mem_names]
  cases view <;> cases shape <;>
    simp [FieldBindings.accessorsOf, pointerAccessors, Verb.isReading, Operation.statements,
      Statement.names, Answer.names, Call.names, Argument.names, PointerFunction.names,
      TypeExpr.names, PointerShape.typeExpr, PointerShape.readAnswer, PointerShape.writeCall,
      PointerShape.initAnswer, PointerShape.adoptCall, PointerShape.disownCall,
      PointerShape.helperType?, PointerShape.type, hdefault]

theorem TypeExpr.names_within {t : TypeExpr} (h : q ∈ t.names) : Within q.text t.text := by
  induction t with
  | runtime | untyped => cases h
  | declared name =>
    rw [List.mem_singleton.1 h]
    exact .refl _
  | list of element ih => exact (ih h).right.left

theorem Literal.names_within {l : Literal} (h : q ∈ l.names) : Within q.text l.text := by
  cases l with
  | enumerant type key =>
    rw [List.mem_singleton.1 h]
    exact (Within.refl _).left.left
  | _ => cases h

theorem Argument.names_within {a : Argument} (h : q ∈ a.names) : Within q.text a.text := by
  cases a with
  | classOf type => exact TypeExpr.names_within h
  | sizeOf type => exact (TypeExpr.names_within h).left
  | _ => cases h

theorem PointerFunction.names_within {f : PointerFunction} (h : q ∈ f.names) :
    Within q.text f.text := by
  cases f with
  | helper => cases h
  | classMethod type name => exact (TypeExpr.names_within h).left.left

/-- What a call is handed, the storage and the index of the access left out. -/
def Call.arguments : Call → List Argument
  | storage _ _ _ rest => rest
  | pointer _ type? _ _ rest => type?.toList ++ rest

theorem Call.argument_within {c : Call} {a : Argument} (h : a ∈ c.arguments) :
    Within a.text c.text := by
  cases c with
  | storage view method index rest =>
    have hmem : a.text ∈ decimal index :: rest.map Argument.text :=
      List.mem_cons_of_mem _ (List.mem_map_of_mem h)
    exact (Within.intercalate _ hmem).right.left
  | pointer function type? view index rest =>
    have hmem : a.text ∈ type?.toList.map Argument.text
        ++ view.storage :: decimal index :: rest.map Argument.text := by
      rcases List.mem_append.1 h with h | h
      · exact List.mem_append_left _ (List.mem_map_of_mem h)
      · refine List.mem_append_right _ (List.mem_cons_of_mem _ (List.mem_cons_of_mem _ ?_))
        exact List.mem_map_of_mem h
    exact (Within.intercalate _ hmem).right.left

theorem Call.names_within {c : Call} (h : q ∈ c.names) : Within q.text c.text := by
  have hargument : ∀ a ∈ c.arguments, q ∈ a.names → Within q.text c.text := fun a ha hq =>
    (Argument.names_within hq).trans (argument_within ha)
  cases c with
  | storage view method index rest =>
    obtain ⟨a, ha, hq⟩ := List.mem_flatMap.1 h
    exact hargument a ha hq
  | pointer function type? view index rest =>
    simp only [names, List.mem_append] at h
    rcases h with (h | h) | h
    · exact (PointerFunction.names_within h).left.left.left
    · obtain ⟨a, ha, hq⟩ := List.mem_flatMap.1 h
      exact hargument a (List.mem_append_left _ ha) hq
    · obtain ⟨a, ha, hq⟩ := List.mem_flatMap.1 h
      exact hargument a (List.mem_append_right _ ha) hq

theorem Answer.names_within {a : Answer} (h : q ∈ a.names) (depth : Nat) :
    Within q.text (a.text depth) := by
  cases a with
  | undefined | groupView => cases h
  | anyOf tests =>
    obtain ⟨test, ht, hq⟩ := List.mem_flatMap.1 h
    have hne : ¬tests.isEmpty = true := by simpa using List.ne_nil_of_mem ht
    rw [Answer.text, if_neg hne]
    exact (Call.names_within hq).right.trans (.intercalate _ (List.mem_map_of_mem ht))
  | result call => exact Call.names_within h
  | structView type view call =>
    rcases List.mem_append.1 h with h | h
    · exact (TypeExpr.names_within h).right.left.left.left.left.left
    · exact (Call.names_within h).right.left

theorem Statement.names_within {s : Statement} (h : q ∈ s.names) (depth : Nat) :
    Within q.text (s.text depth) := by
  cases s with
  | perform call => exact (Call.names_within h).left
  | answer value => exact (Answer.names_within h depth).right.left
  | answerFalseUnless | failUnless => cases h

theorem FieldBindings.statement_within {b : FieldBindings} {view : View} {a : Verb × Operation}
    {s : Statement} (ha : a ∈ b.accessorsOf view) (hs : s ∈ b.body view a.1 a.2) (depth : Nat) :
    Within (s.text (depth + 1)) (b.text view depth) := by
  have hne : ¬b.accessors.isEmpty = true := by
    intro he
    rw [List.isEmpty_iff] at he
    cases view <;> simp [accessorsOf, he] at ha
  have hbody : Within (s.text (depth + 1)) (b.accessorText view depth a.1 a.2) := by
    have hspaced := a.2.layout_spaced depth
      ((b.body view a.1 a.2).map (Statement.text (depth + 1)))
    exact (hspaced.within (List.mem_map_of_mem hs)).right.left
  rw [FieldBindings.text, if_neg hne]
  exact (hbody.trans (.join (List.mem_map.2 ⟨a, ha, rfl⟩))).right

theorem FieldBindings.names_within {b : FieldBindings} {view : View} (h : q ∈ b.names view)
    (depth : Nat) : Within q.text (b.text view depth) := by
  obtain ⟨a, ha, h⟩ := List.mem_flatMap.1 h
  obtain ⟨s, hs, hq⟩ := List.mem_flatMap.1 h
  exact (Statement.names_within hq (depth + 1)).trans (statement_within ha hs depth)

theorem StructBody.binding_within {b : StructBody} {f : FieldBindings} (hf : f ∈ b.bindings)
    (view : View) (name : String) (depth : Nat) :
    Within (f.text view (depth + 1)) (b.members name depth) := by
  have hmem : f.text view (depth + 1) ∈ b.bindings.map fun f => f.text view (depth + 1) :=
    List.mem_map_of_mem hf
  have hview : Within (f.text view (depth + 1)) (b.viewText name depth view) :=
    (Within.join hmem).right.left.left.left
  cases view with
  | reader => exact hview.right.left
  | builder => exact hview.right

theorem StructBody.names_within {b : StructBody} (h : q ∈ b.names) (name : String) (depth : Nat) :
    Within q.text (b.members name depth) := by
  rcases List.mem_append.1 h with h | h
  · obtain ⟨f, hf, hq⟩ := List.mem_flatMap.1 h
    exact (FieldBindings.names_within hq _).trans (binding_within hf .reader name depth)
  · obtain ⟨f, hf, hq⟩ := List.mem_flatMap.1 h
    exact (FieldBindings.names_within hq _).trans (binding_within hf .builder name depth)

theorem ConstExpr.names_within {c : ConstExpr} (h : q ∈ c.names) : Within q.text c.expression := by
  cases c with
  | literal value => exact Literal.names_within h
  | struct type nodeId wordOffset | list type nodeId wordOffset =>
    exact (TypeExpr.names_within h).right.left.left.left.left.left
  | text | data => cases h

theorem Placement.within_object (p : Placement) {part members : String} (h : Within part members) :
    Within part (p.object members) :=
  h.right.left.left.left.left

theorem Placement.within_constant (p : Placement) {part expression : String}
    (h : Within part expression) : Within part (p.constant expression) := by
  unfold constant
  split_ifs
  · exact h.right.left
  · exact h.right.left

namespace Declaration

mutual

/-- What a declaration names, it names in the text that defines it. -/
theorem names_within : ∀ (d : Declaration), q ∈ d.names → Within q.text d.text
  | mk place entry body children, h => by
    rw [names, List.mem_append] at h
    cases body with
    | struct b =>
      rw [text]
      apply place.within_object
      rcases h with h | h
      · exact (namesList_within children h).left
      · exact (StructBody.names_within h _ _).right
    | constant value? =>
      rcases h with h | h
      · cases h
      · cases value? with
        | none => cases h
        | some value =>
          rw [text]
          exact place.within_constant (ConstExpr.names_within h)
    | scope =>
      rcases h with h | h
      · have hne : ¬children.isEmpty = true := by
          intro he
          rw [List.isEmpty_iff.1 he] at h
          cases h
        rw [text, if_neg hne]
        exact place.within_object (namesList_within children h)
      · cases h
    | enum | nothing => rcases h with h | h <;> cases h

theorem namesList_within : ∀ (ds : List Declaration), q ∈ namesList ds → Within q.text (textList ds)
  | [], h => by cases h
  | d :: ds, h => by
    rw [namesList, List.mem_append] at h
    rw [textList]
    rcases h with h | h
    · exact (names_within d h).left
    · exact (namesList_within ds h).right

end

end Declaration

end SchemaBindings.Bindings
