import SchemaBindings.Proofs.Bindings.ViewCode

namespace SchemaBindings.Bindings

open SchemaBindings.Schema SchemaBindings.Layout SchemaBindings.Text

/-- A part of code that both views have, and what can differ in it: the storage, the flavour of a
class, and the size of a struct, which only a builder hands over. -/
inductive Piece where
  | fixed (text : String)
  | storage
  | flavour
  | sizeArgument (type : TypeExpr)
  deriving DecidableEq, Repr

namespace Piece

def text (view : View) : Piece → String
  | fixed text => text
  | storage => view.storage
  | flavour => view.className
  | sizeArgument type =>
    match view with
    | .reader => ""
    | .builder => ", " ++ (Argument.sizeOf type).text

def size? : Piece → Option TypeExpr
  | sizeArgument type => some type
  | _ => none

end Piece

/-- The code of the two views consists of the same pieces, with a builder handing over the given
sizes. -/
def Shared (sizes : List TypeExpr) (code : View → String) : Prop :=
  ∃ pieces : List Piece, (∀ view, code view = String.join (pieces.map (Piece.text view))) ∧
    pieces.filterMap Piece.size? = sizes

namespace Shared

variable {sizes sizes' : List TypeExpr} {code code' : View → String}

theorem piece (p : Piece) : Shared p.size?.toList fun view => p.text view := by
  refine ⟨[p], fun view => ?_, ?_⟩
  · simp
  · cases p <;> rfl

theorem fixed (text : String) : Shared [] fun _ => text :=
  piece (.fixed text)

theorem of_eq (h : Shared sizes code) (heq : ∀ view, code' view = code view) :
    Shared sizes code' := by
  obtain ⟨pieces, hcode, hsizes⟩ := h
  exact ⟨pieces, fun view => (heq view).trans (hcode view), hsizes⟩

theorem append (h : Shared sizes code) (h' : Shared sizes' code') :
    Shared (sizes ++ sizes') fun view => code view ++ code' view := by
  obtain ⟨pieces, hcode, rfl⟩ := h
  obtain ⟨pieces', hcode', rfl⟩ := h'
  refine ⟨pieces ++ pieces', fun view => ?_, List.filterMap_append⟩
  simp only [hcode, hcode', List.map_append, String.join_append]

/-- Fixed texts around code that is shared. -/
theorem between (before : String) (h : Shared sizes code) (after : String) :
    Shared sizes fun view => before ++ code view ++ after := by
  have hshared := ((fixed before).append h).append (fixed after)
  rwa [List.nil_append, List.append_nil] at hshared

theorem intercalate {α : Type} (separator : String) (xs : List α) {code : α → View → String}
    (h : ∀ x ∈ xs, Shared [] (code x)) :
    Shared [] fun view => separator.intercalate (xs.map (code · view)) := by
  induction xs with
  | nil => exact fixed ""
  | cons x xs ih =>
    rw [List.forall_mem_cons] at h
    cases xs with
    | nil => exact h.1.of_eq fun view => String.intercalate_singleton
    | cons y ys =>
      exact ((h.1.append (fixed separator)).append (ih h.2)).of_eq fun view =>
        String.intercalate_cons_cons

theorem storageCall (method : StorageMethod) (index : Nat) (rest : List Argument) :
    Shared [] fun view => (Call.storage view method index rest).text := by
  refine ((piece .storage).append (fixed ("." ++ method.text ++ "("
    ++ String.intercalate ", " (decimal index :: rest.map Argument.text) ++ ")"))).of_eq ?_
  intro view
  unfold Call.text Piece.text
  simp only [String.append_assoc]

theorem pointerCall {function : View → PointerFunction}
    (h : Shared [] fun view => (function view).text) (type? : Option Argument) (index : Nat)
    (rest : List Argument) :
    Shared [] fun view => (Call.pointer (function view) type? view index rest).text := by
  let arguments : List (View → String) := type?.toList.map (fun a _ => a.text)
    ++ View.storage :: (fun _ => decimal index) :: rest.map (fun a _ => a.text)
  have harguments : ∀ argument ∈ arguments, Shared [] argument := by
    refine List.forall_mem_append.2 ⟨List.forall_mem_map.2 fun a _ => fixed a.text, ?_⟩
    simp only [List.forall_mem_cons, List.forall_mem_map]
    exact ⟨piece .storage, fixed _, fun a _ => fixed a.text⟩
  refine (((h.append (fixed "(")).append (intercalate ", " arguments harguments)).append
    (fixed ")")).of_eq ?_
  intro view
  unfold Call.text
  simp only [arguments, List.map_append, List.map_cons, List.map_map]
  rfl

end Shared

theorem intercalate_cons_eq_join (separator text : String) (texts : List String) :
    separator.intercalate (text :: texts) = text ++ String.join (texts.map (separator ++ ·)) := by
  induction texts generalizing text with
  | nil => simp
  | cons next texts ih => simp [ih, String.append_assoc]

/-- The structs whose size a builder hands over where a reader does not. -/
def Operation.sizes : Operation → List TypeExpr
  | readPointer (.struct type) _ _ => [type]
  | _ => []

theorem shared_helper (start : String) :
    Shared [] fun view => (PointerFunction.helper (start ++ view.className)).text := by
  refine ((Shared.fixed ("capnp.genhelper." ++ start)).append (.piece .flavour)).of_eq fun view => ?_
  exact (String.append_assoc ..).symm

theorem shared_classMethod (type : TypeExpr) (start : String) :
    Shared [] fun view => (PointerFunction.classMethod type (start ++ view.className)).text := by
  refine ((Shared.fixed (type.text ++ "." ++ start)).append (.piece .flavour)).of_eq fun view => ?_
  exact (String.append_assoc ..).symm

theorem shared_structRead (type : TypeExpr) (index : Nat) (initial : List Argument) (depth : Nat) :
    Shared [type] fun view =>
      ((PointerShape.struct type).readAnswer view index initial).text depth := by
  refine ⟨[.fixed ("new " ++ type.text ++ "."), .flavour, .fixed "(", .storage,
    .fixed ("." ++ StorageMethod.getStruct.text ++ "(" ++ decimal index), .sizeArgument type,
    .fixed (String.join ((initial.map Argument.text).map (", " ++ ·)) ++ ")"), .fixed ")"], ?_, rfl⟩
  intro view
  unfold PointerShape.readAnswer Answer.text Call.text
  cases view <;>
    simp only [intercalate_cons_eq_join, List.map_append, List.map_nil, List.map_cons,
      List.nil_append, String.join_append, String.join_cons, String.join_nil, Piece.text,
      String.append_assoc, String.append_empty, String.empty_append]

theorem shared_readAnswer (shape : PointerShape) (offset : UInt32) (default? : Option PointerDefault)
    (index : Nat) (initial : List Argument) (depth : Nat) :
    Shared (Operation.readPointer shape offset default?).sizes fun view =>
      (shape.readAnswer view index initial).text depth := by
  cases shape with
  | struct type => exact shared_structRead type index initial depth
  | any => exact Shared.pointerCall (shared_helper "objectGetFrom") _ _ _
  | text | data | list =>
    exact Shared.pointerCall (shared_classMethod (PointerShape.typeExpr _) "get") _ _ _

theorem shared_anyOf {α : Type} (xs : List α) {test : α → View → Test}
    (h : ∀ x ∈ xs, Shared [] fun view => (test x view).text) (depth : Nat) :
    Shared [] fun view => (Answer.anyOf (xs.map (test · view))).text depth := by
  cases xs with
  | nil => exact .fixed "false"
  | cons x xs =>
    refine (Shared.intercalate ("\n" ++ indent depth ++ "    || ") (x :: xs) h).of_eq fun view => ?_
    unfold Answer.text
    simp only [List.map_map]
    rfl

theorem shared_test (negated : Bool) (method : StorageMethod) (index : Nat) :
    Shared [] fun view => (⟨negated, .storage view method index []⟩ : Test).text :=
  (Shared.fixed (if negated then "!" else "")).append (.storageCall method index [])

theorem shared_slotTest (slot : Slot) : Shared [] fun view => (slotTest view slot).text := by
  unfold slotTest
  split
  · exact shared_test _ _ _
  · exact shared_test _ _ _

/-- An operation that reads answers with code that the views share. -/
theorem shared_answer {operation : Operation} (hr : operation.isReading = true) :
    ∃ value : View → Answer, (∀ view, operation.statements view = [.answer (value view)]) ∧
      ∀ depth, Shared operation.sizes fun view => (value view).text depth := by
  cases operation with
  | answerFalse => exact ⟨_, fun _ => rfl, fun depth => .fixed _⟩
  | answerUndefined => exact ⟨_, fun _ => rfl, fun depth => .fixed _⟩
  | testData kind offset =>
    exact ⟨_, fun _ => rfl, shared_anyOf [()] fun _ _ => shared_test _ _ _⟩
  | readData kind offset mask? => exact ⟨_, fun _ => rfl, fun depth => .storageCall _ _ _⟩
  | testPointer index =>
    exact ⟨_, fun _ => rfl, shared_anyOf [()] fun _ _ => shared_test _ _ _⟩
  | readPointer shape index default? =>
    exact ⟨_, fun _ => rfl, shared_readAnswer shape index default? _ _⟩
  | testSlots slots =>
    exact ⟨_, fun _ => rfl, shared_anyOf slots fun slot _ => shared_slotTest slot⟩
  | viewGroup type =>
    refine ⟨_, fun _ => rfl, fun depth => ?_⟩
    refine ((((Shared.fixed ("new " ++ type ++ ".")).append (.piece .flavour)).append
      (.fixed "(")).append (.piece .storage)).append (.fixed ")")
  | _ => cases hr

theorem layout_append_singleton {operation : Operation} (hr : operation.isReading = true)
    (depth : Nat) (guards : List String) :
    ∃ before after, ∀ text, operation.layout depth (guards ++ [text]) = before ++ text ++ after := by
  cases operation with
  | testSlots slots =>
    cases guards with
    | nil =>
      refine ⟨"\n" ++ indent (depth + 1), "\n" ++ indent depth, fun text => ?_⟩
      simp [Operation.layout, String.append_assoc]
    | cons guard guards =>
      refine ⟨"\n" ++ indent (depth + 1) ++ String.intercalate " " (guard :: guards) ++ " ",
        "\n" ++ indent depth, fun text => ?_⟩
      rw [Operation.layout, String.intercalate_append_of_ne_nil (by simp) (by simp),
        String.intercalate_singleton]
      simp only [String.append_assoc]
  | nothing | writeData | writePointer | initPointer | adoptPointer | disownPointer | clearSlots =>
    cases hr
  | _ =>
    refine ⟨" " ++ String.join (guards.map (· ++ " ")), " ", fun text => ?_⟩
    simp [Operation.layout, String.append_assoc]

theorem FieldBindings.shared_accessorText (b : FieldBindings) {operation : Operation}
    (hr : operation.isReading = true) (verb : Verb) (depth : Nat) :
    Shared operation.sizes fun view => b.accessorText view depth verb operation := by
  obtain ⟨value, hstatements, hvalue⟩ := shared_answer hr
  -- the guard is the same in both views, so that only the answer is left to compare
  let guards := (b.tag?.map fun tag => tag.guard verb).toList.map (Statement.text (depth + 1))
  obtain ⟨before, after, hlayout⟩ := layout_append_singleton hr depth guards
  refine (Shared.between (indent depth ++ "this." ++ verb.text ++ titleCase b.name ++ " = function("
    ++ operation.parameters ++ ") \x7b" ++ before ++ "return ") (hvalue (depth + 1))
    (";" ++ after ++ "\x7d;\n")).of_eq fun view => ?_
  have hbody : (b.body view verb operation).map (Statement.text (depth + 1)) =
      guards ++ ["return " ++ (value view).text (depth + 1) ++ ";"] := by
    unfold body
    rw [hstatements, List.map_append]
    rfl
  unfold accessorText
  rw [hbody, hlayout]
  simp only [String.append_assoc]

def StorageMethod.readsOnly : StorageMethod → Bool
  | hasData _ | getData .. | isPointerNull | getStruct => true
  | setData .. | clearPointer | initStruct => false

def PointerFunction.readsOnly : PointerFunction → Bool
  | helper name => name == "objectGetFromReader"
  | classMethod _ name => name == "getReader"

/-- Calls on a reader's storage, of the methods and functions that are there to read. -/
def Call.readsOnly : Call → Bool
  | storage view method _ _ => view == .reader && method.readsOnly
  | pointer function _ view _ _ => view == .reader && function.readsOnly

def Answer.readsOnly : Answer → Bool
  | undefined => true
  | anyOf tests => tests.all fun t => t.call.readsOnly
  | result call => call.readsOnly
  | structView _ view call => view == .reader && call.readsOnly
  | groupView _ view => view == .reader

/-- Statements that perform nothing and answer with what they read. The guards of a union member
only compare. -/
def Statement.readsOnly : Statement → Bool
  | perform _ => false
  | answer value => value.readsOnly
  | answerFalseUnless _ | failUnless .. => true

theorem slotTest_readsOnly (slot : Slot) : (slotTest .reader slot).call.readsOnly = true := by
  unfold slotTest
  split <;> rfl

theorem Operation.statements_readsOnly {operation : Operation} (h : operation.isReading = true) :
    ∀ st ∈ operation.statements .reader, st.readsOnly = true := by
  cases operation with
  | readPointer shape index default? =>
    cases shape <;> exact List.forall_mem_singleton.2 rfl
  | testSlots slots =>
    refine List.forall_mem_singleton.2 (List.all_eq_true.2 (List.forall_mem_map.2 ?_))
    exact fun slot _ => slotTest_readsOnly slot
  | nothing | writeData | writePointer | initPointer | adoptPointer | disownPointer | clearSlots =>
    cases h
  | _ => exact List.forall_mem_singleton.2 rfl

theorem FieldBindings.body_readsOnly (b : FieldBindings) {verb : Verb} {operation : Operation}
    (hv : verb.isReading = true) (h : operation.isReading = true) :
    ∀ st ∈ b.body .reader verb operation, st.readsOnly = true := by
  refine List.forall_mem_append.2 ⟨?_, Operation.statements_readsOnly h⟩
  cases b.tag? with
  | none => exact List.forall_mem_nil _
  | some tag =>
    refine List.forall_mem_singleton.2 ?_
    cases verb with
    | has | get => rfl
    | _ => cases hv

section Run

variable {P : Type}

/-- However it ends, the storage is as before. -/
def Outcome.Leaves (before : Storage P) : Outcome P → Prop
  | next s | returned _ s | thrown _ s => s = before
  | stuck => True

theorem Call.run_readsOnly {call : Call} (h : call.readsOnly = true) {input : Input P}
    {s s' : Storage P} {v : Returned} (hr : call.run input s = some (v, s')) : s' = s := by
  unfold Call.run at hr
  split at hr
  · obtain ⟨_, -, hr⟩ := Option.bind_eq_some_iff.1 hr
    cases hr
    rfl
  · obtain ⟨_, -, hr⟩ := Option.bind_eq_some_iff.1 hr
    obtain ⟨_, -, hr⟩ := Option.bind_eq_some_iff.1 hr
    cases hr
    rfl
  · cases h
  · cases hr
    rfl
  · cases h
  · cases hr
    rfl
  · cases h
  · cases h
  · cases hr
    rfl
  · cases h
  · cases hr

theorem Answer.run_readsOnly {value : Answer} (h : value.readsOnly = true) {input : Input P}
    {s s' : Storage P} {v : Returned} (hr : value.run input s = some (v, s')) : s' = s := by
  cases value with
  | undefined =>
    cases hr
    rfl
  | anyOf tests =>
    obtain ⟨_, -, hr⟩ := Option.bind_eq_some_iff.1 hr
    cases hr
    rfl
  | result call => exact Call.run_readsOnly h hr
  | structView type view call =>
    obtain ⟨⟨_, _⟩, hcall, hr⟩ := Option.bind_eq_some_iff.1 hr
    cases hr
    exact Call.run_readsOnly (Bool.and_eq_true_iff.1 h).2 hcall
  | groupView type view =>
    cases hr
    rfl

theorem Statement.run_readsOnly {st : Statement} (h : st.readsOnly = true) (which? : Option Call)
    (input : Input P) (s : Storage P) : (st.run which? input s).Leaves s := by
  unfold Statement.run
  cases st with
  | perform call => cases h
  | answer value =>
    dsimp only
    split
    next hr => exact Answer.run_readsOnly h hr
    next => trivial
  | answerFalseUnless tag =>
    dsimp only
    split
    · split <;> rfl
    · trivial
  | failUnless tag message =>
    dsimp only
    split
    · split <;> rfl
    · trivial

theorem Statement.runAll_readsOnly {statements : List Statement}
    (h : ∀ st ∈ statements, st.readsOnly = true) (which? : Option Call) (input : Input P)
    (s : Storage P) : (Statement.runAll which? input s statements).Leaves s := by
  induction statements with
  | nil => rfl
  | cons st statements ih =>
    rw [List.forall_mem_cons] at h
    have hleaves := Statement.run_readsOnly h.1 which? input s
    rw [runAll]
    cases hst : st.run which? input s with
    | next s' =>
      rw [hst] at hleaves
      obtain rfl : s' = s := hleaves
      exact ih h.2
    | returned | thrown | stuck =>
      rw [hst] at hleaves
      exact hleaves

end Run

/-- How a reader and a builder of a field compare, with the operations behind the presence test and
the read that they share, and the accessors that only a builder offers. -/
structure FieldBindings.Views (b : FieldBindings) (depth : Nat) (test read : Operation)
    (writing : List (Verb × Operation)) : Prop where
  reader_offers : b.accessorsOf .reader = [(.has, test), (.get, read)]
  builder_offers : b.accessorsOf .builder = (.has, test) :: (.get, read) :: writing
  writing_apart : ∀ a ∈ writing, a.1.isReading = false
  reader_text : b.text .reader depth = b.predicateText depth
    ++ b.accessorText .reader depth .has test ++ b.accessorText .reader depth .get read
  builder_text : b.text .builder depth = b.predicateText depth
    ++ b.accessorText .builder depth .has test ++ b.accessorText .builder depth .get read
    ++ String.join (writing.map fun a => b.accessorText .builder depth a.1 a.2)
  test_shared : Shared [] fun view => b.accessorText view depth .has test
  read_shared : Shared read.sizes fun view => b.accessorText view depth .get read
  readsOnly : ∀ a ∈ b.accessorsOf .reader, ∀ st ∈ b.body .reader a.1 a.2, st.readsOnly = true

theorem FieldBindings.Views.of_accessors {b : FieldBindings} {test read : Operation}
    {writing : List (Verb × Operation)} (h : b.accessors = (.has, test) :: (.get, read) :: writing)
    (ht : test.isReading = true) (hsizes : test.sizes = []) (hr : read.isReading = true)
    (hw : ∀ a ∈ writing, a.1.isReading = false) (depth : Nat) :
    b.Views depth test read writing := by
  have hreader : b.accessorsOf .reader = [(.has, test), (.get, read)] := by
    have hnone : writing.filter (fun a => a.1.isReading) = [] :=
      List.filter_eq_nil_iff.2 fun a ha => by simp [hw a ha]
    rw [accessorsOf, h, List.filter_cons_of_pos rfl, List.filter_cons_of_pos rfl, hnone]
  have htext (view : View) : b.text view depth = b.predicateText depth
      ++ String.join ((b.accessorsOf view).map fun a => b.accessorText view depth a.1 a.2) := by
    rw [text, h]
    rfl
  constructor
  case reader_offers => exact hreader
  case builder_offers => exact h
  case writing_apart => exact hw
  case reader_text =>
    rw [htext, hreader]
    simp [String.append_assoc]
  case builder_text =>
    rw [htext, accessorsOf, h]
    simp [String.append_assoc]
  case test_shared =>
    rw [← hsizes]
    exact b.shared_accessorText ht .has depth
  case read_shared => exact b.shared_accessorText hr .get depth
  case readsOnly =>
    rw [hreader]
    exact List.forall_mem_cons.2 ⟨b.body_readsOnly rfl ht,
      List.forall_mem_singleton.2 (b.body_readsOnly rfl hr)⟩

/-- A builder hands over the size of the struct that a field points to, and no other. -/
def SizesOf (context : FileContext) (f : Field) (sizes : List TypeExpr) : Prop :=
  match f.body with
  | .slot slot =>
    if slot.type.kind = .struct then
      ∃ type used used', Generation.run (typeExpr slot.type) context used = (.ok type, used') ∧
        sizes = [type]
    else sizes = []
  | .group _ => sizes = []

section Generated

variable {context : FileContext} {used used' : UsedFiles} {scope path : String} {nodeId : UInt64}
  {s : StructInfo} {f : Field} {b : FieldBindings}

theorem sizesOf_nil {slot : SlotField} (hf : f.body = .slot slot) (hk : slot.type.kind ≠ .struct) :
    SizesOf context f [] := by
  simp [SizesOf, hf, hk]

theorem sizesOf_readPointer {slot : SlotField} (hf : f.body = .slot slot) {shape : PointerShape}
    (h : AccessedAs context slot.type shape) (index : UInt32) (default? : Option PointerDefault) :
    SizesOf context f (Operation.readPointer shape index default?).sizes := by
  cases h with
  | text hk | data hk | list hk | any hk => exact sizesOf_nil hf (by simp [hk])
  | @struct type u u' hk htype =>
    simp only [SizesOf, hf, hk, if_true]
    exact ⟨type, u, u', htype, rfl⟩

/-- The views of a field, by the kind of what it holds. -/
theorem fieldBindings_views
    (h : Generation.run (fieldBindings scope nodeId s f) context used = (.ok b, used'))
    (ha : hasAccessors f = true) (depth : Nat) :
    ∃ test read writing, b.Views depth test read writing ∧ SizesOf context f read.sizes := by
  obtain ⟨accessors, rfl, ⟨slot, u, u', hf, hslot⟩ | ⟨id, group, slots, hf, hgroup, hslots, rfl⟩⟩ :=
    fieldBindings_eq_ok h
  · rcases slotAccessors_shapes hslot with ⟨hk, rfl⟩ | ⟨hdata, rfl⟩ | ⟨hk, rfl⟩ |
      ⟨shape, default?, hshape, rfl⟩
    · refine ⟨.answerFalse, .answerUndefined, _, .of_accessors rfl rfl rfl rfl ?_ depth, ?_⟩
      · simp [Verb.isReading]
      · exact sizesOf_nil hf (by simp [hk])
    · refine ⟨.testData _ _, .readData _ _ _, _, .of_accessors rfl rfl rfl rfl ?_ depth, ?_⟩
      · simp [Verb.isReading]
      · exact sizesOf_nil hf fun hk => by simp [hk, sectionOf] at hdata
    · simp [hasAccessors, hf, hk] at ha
    · refine ⟨.testPointer _, .readPointer shape _ _, _, .of_accessors rfl rfl rfl rfl ?_ depth, ?_⟩
      · simp [Verb.isReading]
      · exact sizesOf_readPointer hf hshape _ _
  · refine ⟨.testSlots _, .viewGroup _, _, .of_accessors rfl rfl rfl rfl ?_ depth, ?_⟩
    · simp [Verb.isReading]
    · simp [SizesOf, hf, Operation.sizes]

/-- A capability has no accessors in either view. -/
theorem fieldBindings_text_of_not_hasAccessors
    (h : Generation.run (fieldBindings scope nodeId s f) context used = (.ok b, used'))
    (ha : hasAccessors f = false) (view : View) (depth : Nat) : b.text view depth = "" := by
  obtain ⟨accessors, rfl, ⟨slot, u, u', hf, hslot⟩ | ⟨id, group, slots, hf, -, -, -⟩⟩ :=
    fieldBindings_eq_ok h
  · have hk : slot.type.kind = .interface := by simpa [hasAccessors, hf] using ha
    simp only [slotAccessors, hk] at hslot
    obtain rfl := Generation.run_pure_eq_ok hslot
    rfl
  · simp [hasAccessors, hf] at ha

theorem FieldBindings.Named.method?_readsOnly (hb : b.Named) {verb : Verb}
    {statements : List Statement} (hm : b.method? .reader verb = some statements) :
    ∀ st ∈ statements, st.readsOnly = true := by
  obtain ⟨operation, hop, rfl⟩ := Option.map_eq_some_iff.1 hm
  obtain ⟨l, r, hl, -⟩ := List.lookup_eq_some_iff.1 hop
  have hmem : (verb, operation) ∈ b.accessorsOf .reader := by simp [hl]
  obtain ⟨ha, hverb⟩ := List.mem_filter.1 hmem
  exact b.body_readsOnly hverb (hb.reading _ ha hverb)

/-- For every field of a struct with identifiers for names: a view's text names no storage but its
own. Unless the field is a capability, which has no text, a reader consists of the predicate, the
presence test and the read, whose statements write nothing; and a builder has the same three ahead of
its own accessors, up to the storage, the flavour and the size of a struct that is pointed to. -/
theorem views_share_reading
    (hg : ∀ n ∈ context.graph.nodes, ∀ entry ∈ n.nested, isIdentifier entry.name = true)
    (hpath : IsDotted path) (hname : isIdentifier f.name = true)
    (h : Generation.run (fieldBindings ("module." ++ path) nodeId s f) context used = (.ok b, used'))
    (depth : Nat) :
    (∀ view : View, ∀ name ∈ freeNames (b.text view depth),
      ∀ other : View, name = other.storage → other = view) ∧
    (hasAccessors f = false → ∀ view, b.text view depth = "") ∧
    (hasAccessors f = true → ∃ test read writing, b.Views depth test read writing ∧
      SizesOf context f read.sizes) ∧
    ∀ (P : Type) (verb : Verb) (statements : List Statement),
      b.method? .reader verb = some statements →
      ∀ (which? : Option Call) (input : Input P) (storage : Storage P),
        (Statement.runAll which? input storage statements).Leaves storage := by
  have hnamed := fieldBindings_named hg hpath hname h
  refine ⟨fun view => View.Term.freeNames (View.Code.term (FieldBindings.code_text hnamed view depth)),
    fun ha view => fieldBindings_text_of_not_hasAccessors h ha view depth,
    fun ha => fieldBindings_views h ha depth, ?_⟩
  intro P verb statements hm which? input storage
  exact Statement.runAll_readsOnly (hnamed.method?_readsOnly hm) which? input storage

end Generated

namespace Chains

/-- A link of a chain, which leads to another one or is the end. -/
def nextField : Field :=
  ⟨"next", 0, 0, .slot ⟨0, .plain .struct 2, { Value.zero .struct with present := true }, 5⟩⟩

def linkInfo : StructInfo :=
  ⟨1, 1, 7, false, 2, 0, [nextField, ⟨"end", 1, 1, .slot ⟨0, .plain .void 0, .zero .void, 0⟩⟩]⟩

def link : Node :=
  { (default : Node) with
    id := 2
    kind := .structNode
    displayName := "chain.capnp:Link"
    scopeId := 1
    struct? := some linkInfo }

def file : Node :=
  { (default : Node) with
    id := 1
    kind := .fileNode
    displayName := "chain.capnp"
    nested := [⟨"Link", 2⟩] }

def context : FileContext :=
  ⟨⟨[file, link], by decide⟩, ⟨1, "chain.capnp", []⟩⟩

def linkType : TypeExpr :=
  .declared ⟨.own, ["Link"]⟩

def nextBindings : FieldBindings :=
  ⟨"module.Link", "next", some ⟨0, 0⟩,
    pointerAccessors (.struct linkType) 0 (some ⟨2, 40, none⟩)⟩

theorem run_typeExpr_link (used : UsedFiles) :
    Generation.run (typeExpr (.plain .struct 2)) context used = (.ok linkType, used) :=
  rfl

theorem run_fieldBindings_next :
    Generation.run (fieldBindings "module.Link" 2 linkInfo nextField) context [] =
      (.ok nextBindings, []) :=
  rfl

end Chains

/-- A union member that points to a struct with a default. -/
theorem views_share_reading_next :
    Generation.run (fieldBindings "module.Link" 2 Chains.linkInfo Chains.nextField)
        Chains.context [] = (.ok Chains.nextBindings, []) ∧
    "_reader" ∉ freeNames (Chains.nextBindings.text .builder 2) ∧
    ∃ test read writing, Chains.nextBindings.Views 2 test read writing ∧
      read.sizes = [Chains.linkType] := by
  have hg : ∀ n ∈ Chains.context.graph.nodes, ∀ entry ∈ n.nested, isIdentifier entry.name = true := by
    decide
  have hpath : IsDotted "Link" := ⟨["Link"], by simp, by decide, rfl⟩
  obtain ⟨hfree, -, hviews, -⟩ :=
    views_share_reading hg hpath rfl Chains.run_fieldBindings_next 2
  obtain ⟨test, read, writing, hv, hsizes⟩ := hviews rfl
  refine ⟨Chains.run_fieldBindings_next, ?_, test, read, writing, hv, ?_⟩
  · intro hmem
    cases hfree .builder _ hmem .reader rfl
  · obtain ⟨type, u, u', htype, hsizes⟩ := hsizes
    cases (Chains.run_typeExpr_link u).symm.trans htype
    exact hsizes

end SchemaBindings.Bindings
