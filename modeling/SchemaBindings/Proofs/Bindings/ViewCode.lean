import SchemaBindings.Proofs.Bindings.FreeNames
import SchemaBindings.Proofs.Text.ObjectLines

namespace SchemaBindings.Bindings

open SchemaBindings.Schema SchemaBindings.Layout SchemaBindings.Text

theorem isWord_of_isIdentifier {name : String} (h : isIdentifier name = true) : IsWord name := by
  obtain ⟨c, cs, hname, hc, hcs⟩ := isIdentifier_iff.1 h
  rw [IsWord, hname]
  exact List.forall_mem_cons.2 ⟨isNameChar_of_isNameStart hc, hcs⟩

theorem isWord_titleCase {name : String} (h : isIdentifier name = true) : IsWord (titleCase name) := by
  obtain ⟨c, cs, hname, hc, hcs⟩ := isIdentifier_iff.1 h
  rw [IsWord, titleCase, hname, String.toList_ofList]
  exact List.forall_mem_cons.2 ⟨isNameChar_capital (isNameChar_of_isNameStart hc), hcs⟩

theorem isWord_hex (n : Nat) : IsWord (hex n) := by
  intro c hc
  rw [hex, String.toList_ofList] at hc
  obtain ⟨d, hd, rfl⟩ := exists_digitChar_of_mem_toDigits (by decide) hc
  exact isNameChar_digitChar d hd

theorem isWord_className (view : View) : IsWord view.className := by
  cases view <;> exact isWord_of_eq rfl rfl

theorem isWord_suffixOf (kind : Kind) : IsWord (suffixOf kind) := by
  cases kind <;> exact isWord_of_eq rfl rfl

def StorageMethod.Named : StorageMethod → Prop
  | hasData type | getData type _ | setData type _ => IsWord type
  | _ => True

theorem isWord_storageMethod {method : StorageMethod} (h : method.Named) : IsWord method.text := by
  have hmasked (masked : Bool) : IsWord (if masked then "_masked" else "") := by
    cases masked <;> exact isWord_of_eq rfl rfl
  cases method with
  | hasData type => exact (isWord_of_eq rfl rfl).append h
  | getData type masked => exact ((isWord_of_eq rfl rfl).append h).append (hmasked masked)
  | setData type masked => exact ((isWord_of_eq rfl rfl).append h).append (hmasked masked)
  | _ => exact isWord_of_eq rfl rfl

namespace View

variable (view : View)

theorem term_decimal (n : Nat) : view.Term (decimal n) := by
  have hdigit : ∀ d < 10, isNameChar (Nat.digitChar d) = true ∧ Nat.digitChar d ≠ '_' := by decide
  have hdigits : ∀ c ∈ Nat.toDigits 10 n, isNameChar c = true ∧ c ≠ '_' := by
    intro c hc
    obtain ⟨d, hd, rfl⟩ := exists_digitChar_of_mem_toDigits (by decide) hc
    exact hdigit d hd
  obtain ⟨c, cs, hcs⟩ := List.exists_cons_of_ne_nil (Nat.toDigits_ne_nil (n := n) (b := 10))
  have htext : (decimal n).toList = c :: cs := by rw [decimal, String.toList_ofList, hcs]
  rw [hcs] at hdigits
  refine term_of_isWord ?_ htext ?_
  · rw [IsWord, htext]
    exact fun d hd => (hdigits d hd).1
  · rw [htext]
    exact view.allows_of_head (hdigits c List.mem_cons_self).2 cs

theorem term_signedDecimal (i : Int) : view.Term (signedDecimal i) := by
  cases i with
  | ofNat n => exact view.term_decimal n
  | negSucc n =>
    have hminus : view.Code "-" := .last rfl rfl
    exact hminus.append_term (view.term_decimal (n + 1))

theorem term_scalar (v : Scalar) : view.Term v.text := by
  cases v with
  | flag value => cases value <;> exact term_of_eq rfl rfl (view.allows_of_head (by decide) _)
  | number value => exact view.term_signedDecimal value
  | words value =>
    unfold Scalar.text WordPair.text
    simp only [String.append_assoc]
    refine Code.term (.fixed rfl rfl <| (view.term_signedDecimal _).scans ?_ <| .fixed rfl rfl <|
      (view.term_decimal _).scans ?_ <| .last rfl rfl)
    · exact (opens_of_eq rfl rfl).append _
    · exact opens_of_eq rfl rfl

theorem term_root (root : Root) : view.Term root.text := by
  cases root with
  | own => exact term_of_eq rfl rfl (view.allows_of_head (by decide) _)
  | foreign id => exact ⟨_, .fixed rfl rfl (.word _ (isWord_hex _)), view.allows_of_head (by decide) _⟩
  | provided id =>
    exact ⟨_, .fixed rfl rfl (.word _ (isWord_hex _)), view.allows_of_head (by decide) _⟩

theorem term_qualifiedName {q : QualifiedName} (h : ∀ part ∈ q.path, isIdentifier part = true) :
    view.Term q.text := by
  have hfold : ∀ (names : List String) (text : String), view.Term text →
      (∀ name ∈ names, isIdentifier name = true) →
      view.Term (names.foldl (fun text name => text ++ "." ++ name) text) := by
    intro names
    induction names with
    | nil => exact fun _ ht _ => ht
    | cons name names ih =>
      intro text ht hn
      rw [List.forall_mem_cons] at hn
      exact ih _ (ht.member (isWord_of_isIdentifier hn.1)) hn.2
  exact hfold q.path _ (view.term_root q.root) h

theorem term_typeExpr {type : TypeExpr} (h : type.MadeOf (isIdentifier · = true)) :
    view.Term type.text := by
  induction h with
  | @runtime kind name h =>
    cases kind <;> cases h <;> exact term_of_eq rfl rfl trivial
  | declared h => exact view.term_qualifiedName h
  | list of _ ih =>
    have hof : view.Term of.text := by cases of <;> exact term_of_eq rfl rfl trivial
    unfold TypeExpr.text
    simp only [String.append_assoc]
    refine Code.term (hof.scans ?_ <| .fixed rfl rfl <| ih.scans ?_ <| .last rfl rfl)
    · exact (opens_of_eq rfl rfl).append _
    · exact opens_of_eq rfl rfl
  | untyped => exact term_of_eq rfl rfl trivial

theorem term_storage : view.Term view.storage := by
  cases view with
  | reader => exact term_of_eq rfl rfl (allows_storageWord .reader)
  | builder => exact term_of_eq rfl rfl (allows_storageWord .builder)

theorem term_given {name : String} (h : name ∈ ["value", "type", "size", "arguments"]) :
    view.Term (Argument.given name).text := by
  simp only [List.mem_cons, List.not_mem_nil, or_false] at h
  rcases h with rfl | rfl | rfl | rfl <;>
    exact term_of_eq rfl rfl (view.allows_of_head (by decide) _)

theorem term_sizeOf {type : TypeExpr} (h : type.MadeOf (isIdentifier · = true)) :
    view.Term (Argument.sizeOf type).text :=
  (view.term_typeExpr h).append (opens_of_eq rfl rfl) (term_of_eq rfl rfl trivial)

theorem term_embedded (nodeId : UInt64) (byteOffset : Nat) :
    view.Term (Argument.embedded nodeId byteOffset).text := by
  have hid : ∀ c ∈ (idHex nodeId).toList, c ≠ '\x27' ∧ c ≠ '\\' := by
    intro c hc
    have hname := isWord_hex nodeId.toNat c hc
    constructor <;> rintro rfl <;> cases hname
  unfold Argument.text schemaRef
  simp only [String.append_assoc]
  refine Code.term (.fixed rfl rfl <| .append (.literal hid) <| .fixed rfl rfl <| .fixed rfl rfl <|
    (view.term_decimal byteOffset).scans ?_ <| .last rfl rfl)
  exact opens_of_eq rfl rfl

theorem term_maskArguments (mask? : Option Mask) :
    ∀ a ∈ maskArguments mask?, view.Term a.text := by
  cases mask? with
  | none => exact nofun
  | some mask => exact List.forall_mem_singleton.2 (view.term_scalar mask)

theorem term_defaultArguments (default? : Option PointerDefault) :
    ∀ a ∈ (default?.map PointerDefault.arguments).getD [], view.Term a.text := by
  cases default? with
  | none => exact nofun
  | some d =>
    refine List.forall_mem_cons.2 ⟨view.term_embedded _ _, ?_⟩
    cases d.size? with
    | none => exact nofun
    | some size => exact List.forall_mem_singleton.2 (view.term_decimal size)

variable {view}

theorem term_arguments {arguments : List String} (h : ∀ text ∈ arguments, view.Term text) :
    view.Term (String.intercalate ", " arguments) :=
  .intercalate (opens_of_eq rfl rfl) (.last rfl rfl) h

theorem code_storageCall (method : StorageMethod) (hm : method.Named) (index : Nat)
    {rest : List Argument} (hrest : ∀ a ∈ rest, view.Term a.text) :
    view.Code (Call.storage view method index rest).text := by
  have harguments : view.Term
      (String.intercalate ", " (decimal index :: rest.map Argument.text)) :=
    term_arguments (List.forall_mem_cons.2 ⟨view.term_decimal index, List.forall_mem_map.2 hrest⟩)
  unfold Call.text
  simp only [String.append_assoc]
  refine view.term_storage.scans ?_ <| .fixed rfl rfl <| .append (.member (isWord_storageMethod hm)) <|
    .fixed rfl rfl <| harguments.scans ?_ <| .last rfl rfl
  · exact (opens_of_eq rfl rfl).append _
  · exact opens_of_eq rfl rfl

theorem code_pointerCall {function : PointerFunction} (hf : view.Term function.text)
    {type? : Option Argument} (htype : ∀ a ∈ type?.toList, view.Term a.text) (index : Nat)
    {rest : List Argument} (hrest : ∀ a ∈ rest, view.Term a.text) :
    view.Code (Call.pointer function type? view index rest).text := by
  have harguments : view.Term (String.intercalate ", " (type?.toList.map Argument.text
      ++ view.storage :: decimal index :: rest.map Argument.text)) := by
    refine term_arguments (List.forall_mem_append.2 ⟨?_, ?_⟩)
    · exact List.forall_mem_map.2 htype
    · simp only [List.forall_mem_cons]
      exact ⟨view.term_storage, view.term_decimal index, List.forall_mem_map.2 hrest⟩
  unfold Call.text
  simp only [String.append_assoc]
  refine hf.scans ?_ <| .fixed rfl rfl <| harguments.scans ?_ <| .last rfl rfl
  · exact (opens_of_eq rfl rfl).append _
  · exact opens_of_eq rfl rfl

theorem term_helper {name : String} (h : IsWord name) :
    view.Term (PointerFunction.helper name).text :=
  ⟨_, .fixed rfl rfl (.member h), trivial⟩

theorem term_classMethod {type : TypeExpr} (ht : type.MadeOf (isIdentifier · = true))
    {name : String} (h : IsWord name) : view.Term (PointerFunction.classMethod type name).text :=
  (view.term_typeExpr ht).member h

theorem code_newView {type : String} (ht : view.Term type) {arguments : String}
    (ha : view.Term arguments) :
    view.Code ("new " ++ type ++ "." ++ view.className ++ "(" ++ arguments ++ ")") := by
  simp only [String.append_assoc]
  refine .fixed rfl rfl <| ht.scans ?_ <| .fixed rfl rfl <| .append (.member (isWord_className view)) <|
    .fixed rfl rfl <| ha.scans ?_ <| .last rfl rfl
  · exact (opens_of_eq rfl rfl).append _
  · exact opens_of_eq rfl rfl

theorem term_anyOf {tests : List Test} (h : ∀ t ∈ tests, view.Code t.call.text) (depth : Nat) :
    view.Term ((Answer.anyOf tests).text depth) := by
  have htest : ∀ t ∈ tests, view.Term t.text := by
    intro t ht
    have hnot : view.Code (if t.negated then "!" else "") := by
      cases t.negated <;> exact .last rfl rfl
    exact Code.term (hnot.append (h t ht))
  unfold Answer.text
  dsimp only
  split
  · exact term_of_eq rfl rfl (view.allows_of_head (by decide) _)
  · refine .intercalate ?_ ?_ (List.forall_mem_map.2 htest)
    · exact ((opens_of_eq rfl rfl).append _).append _
    · simp only [String.append_assoc]
      exact .fixed rfl rfl <| .append (code_of_isBlank (isBlank_indent depth)) <| .last rfl rfl

theorem code_answer {value : Answer} {depth : Nat} (h : view.Term (value.text depth)) :
    view.Code ((Statement.answer value).text depth) := by
  unfold Statement.text
  simp only [String.append_assoc]
  refine .fixed rfl rfl <| h.scans ?_ <| .last rfl rfl
  exact opens_of_eq rfl rfl

theorem code_perform {call : Call} (h : view.Code call.text) (depth : Nat) :
    view.Code ((Statement.perform call).text depth) :=
  h.append (.last rfl rfl)

theorem code_answerFalseUnless (tag : UInt16) (depth : Nat) :
    view.Code ((Statement.answerFalseUnless tag).text depth) := by
  unfold Statement.text
  simp only [String.append_assoc]
  refine .fixed rfl rfl <| (view.term_decimal _).scans ?_ <| .last rfl rfl
  exact opens_of_eq rfl rfl

theorem code_failUnless (tag : UInt16) {message : String}
    (h : ∀ c ∈ message.toList, isUnescaped c = true) (depth : Nat) :
    view.Code ((Statement.failUnless tag message).text depth) := by
  have hmessage : ∀ c ∈ message.toList, c ≠ '"' ∧ c ≠ '\\' := by
    intro c hc
    have hunescaped := h c hc
    simp only [isUnescaped, Bool.and_eq_true, bne_iff_ne] at hunescaped
    exact hunescaped.1
  unfold Statement.text
  simp only [quote_of_isUnescaped h, String.append_assoc]
  refine .fixed rfl rfl <| (view.term_decimal _).scans ?_ <| .fixed rfl rfl <| .fixed rfl rfl <|
    .append (.literal hmessage) <| .fixed rfl rfl <| .last rfl rfl
  exact (opens_of_eq rfl rfl).append _

end View

def PointerShape.Named : PointerShape → Prop
  | struct type | list type => type.MadeOf (isIdentifier · = true)
  | _ => True

/-- The classes that the operation works with have names that code can be made of. -/
def Operation.Named : Operation → Prop
  | readPointer shape _ _ | writePointer shape _ | initPointer shape _ | adoptPointer shape _
  | disownPointer shape _ => shape.Named
  | viewGroup type | clearSlots _ type => ∀ view : View, view.Term type
  | _ => True

/-- The operations that answer and leave storage as it is. -/
def Operation.isReading : Operation → Bool
  | nothing | writeData .. | writePointer .. | initPointer .. | adoptPointer .. | disownPointer ..
  | clearSlots .. => false
  | _ => true

namespace PointerShape

variable {view : View} {shape : PointerShape}

theorem Named.typeExpr_madeOf (h : shape.Named) : shape.typeExpr.MadeOf (isIdentifier · = true) := by
  cases shape with
  | text => exact .runtime (show runtimeClass? .text = _ from rfl)
  | data => exact .runtime (show runtimeClass? .data = _ from rfl)
  | struct type => exact h
  | list type => exact h
  | any => exact .untyped

theorem Named.term_type (h : shape.Named) : view.Term shape.type.text := by
  cases shape with
  | any => exact view.term_given (by simp)
  | _ => exact view.term_typeExpr h.typeExpr_madeOf

theorem Named.term_helperType? (h : shape.Named) :
    ∀ a ∈ shape.helperType?.toList, view.Term a.text := by
  cases shape with
  | text | data => exact List.forall_mem_nil _
  | _ => exact List.forall_mem_singleton.2 h.term_type

theorem isWord_helperName (shape : PointerShape) : IsWord shape.helperName := by
  cases shape <;> exact isWord_of_eq rfl rfl

theorem term_readAnswer (h : shape.Named) (index : Nat) {initial : List Argument}
    (hi : ∀ a ∈ initial, view.Term a.text) (depth : Nat) :
    view.Term ((shape.readAnswer view index initial).text depth) := by
  have hget : IsWord ("get" ++ view.className) := (isWord_of_eq rfl rfl).append (isWord_className view)
  cases shape with
  | struct type =>
    refine View.Code.term
      (View.code_newView (view.term_typeExpr h)
        (View.Code.term (View.code_storageCall .getStruct trivial index ?_)))
    cases view with
    | reader => exact hi
    | builder => exact List.forall_mem_cons.2 ⟨View.term_sizeOf _ h, hi⟩
  | any =>
    refine View.Code.term (View.code_pointerCall (View.term_helper ?_) ?_ index hi)
    · exact (isWord_of_eq rfl rfl).append (isWord_className view)
    · exact List.forall_mem_singleton.2 (view.term_given (by simp))
  | _ =>
    exact View.Code.term
      (View.code_pointerCall (View.term_classMethod h.typeExpr_madeOf hget) (List.forall_mem_nil _)
        index hi)

theorem code_writeCall (h : shape.Named) (index : Nat) :
    View.builder.Code (shape.writeCall index).text :=
  View.code_pointerCall (View.term_helper ((isWord_helperName shape).append (isWord_of_eq rfl rfl)))
    h.term_helperType? index (List.forall_mem_singleton.2 (View.term_given _ (by simp)))

theorem term_initAnswer (h : shape.Named) (index depth : Nat) :
    View.builder.Term ((shape.initAnswer index).text depth) := by
  have hgiven (name : String) (hname : name ∈ ["size", "arguments"]) :
      ∀ a ∈ [Argument.given name], View.builder.Term a.text := by
    refine List.forall_mem_singleton.2 (View.term_given _ ?_)
    simp only [List.mem_cons, List.not_mem_nil, or_false] at hname ⊢
    tauto
  cases shape with
  | struct type =>
    refine View.Code.term
      (View.code_newView (View.term_typeExpr _ h)
        (View.Code.term (View.code_storageCall .initStruct trivial index ?_)))
    exact List.forall_mem_singleton.2 (View.term_sizeOf _ h)
  | list type =>
    refine View.Code.term (View.code_pointerCall (View.term_helper ?_) ?_ index (hgiven _ (by simp)))
    · exact isWord_of_eq rfl rfl
    · exact List.forall_mem_singleton.2 (View.term_typeExpr _ h)
  | any =>
    exact View.Code.term (View.code_pointerCall (View.term_helper (isWord_of_eq rfl rfl))
      (List.forall_mem_nil _) index
      (hgiven _ (by simp)))
  | _ =>
    exact View.Code.term (View.code_pointerCall
      (View.term_classMethod h.typeExpr_madeOf (isWord_of_eq rfl rfl))
      (List.forall_mem_nil _) index
      (hgiven _ (by simp)))

theorem code_adoptCall (h : shape.Named) (index : Nat) :
    View.builder.Code (shape.adoptCall index).text := by
  have hvalue : ∀ a ∈ [Argument.given "value"], View.builder.Term a.text :=
    List.forall_mem_singleton.2 (View.term_given _ (by simp))
  have htype : ∀ a ∈ (some shape.type).toList, View.builder.Term a.text :=
    List.forall_mem_singleton.2 h.term_type
  cases shape <;>
    exact View.code_pointerCall (View.term_helper (isWord_of_eq rfl rfl)) htype index hvalue

theorem code_disownCall (h : shape.Named) (index : Nat) :
    View.builder.Code (shape.disownCall index).text :=
  View.code_pointerCall (View.term_helper ((isWord_helperName shape).append (isWord_of_eq rfl rfl)))
    h.term_helperType? index (List.forall_mem_nil _)

end PointerShape

section Operation

variable {view : View} {operation : Operation}

theorem code_slotTest (slot : Slot) : view.Code (slotTest view slot).call.text := by
  unfold slotTest
  split
  · exact View.code_storageCall .isPointerNull trivial _ (List.forall_mem_nil _)
  · exact View.code_storageCall (.hasData _) (isWord_suffixOf _) _ (List.forall_mem_nil _)

theorem code_slotClear (slot : Slot) (depth : Nat) :
    View.builder.Code ((slotClear slot).text depth) := by
  unfold slotClear
  split
  · exact View.code_perform
      (View.code_storageCall .clearPointer trivial _ (List.forall_mem_nil _)) depth
  · exact View.code_perform (View.code_storageCall (.setData _ _) (isWord_suffixOf _) _
      (List.forall_mem_singleton.2 (View.term_scalar _ _))) depth

theorem code_groupView {type : String} (h : view.Term type) (depth : Nat) :
    view.Code ((Statement.answer (.groupView type view)).text depth) :=
  View.code_answer (View.Code.term (View.code_newView h view.term_storage))

theorem code_statements (h : operation.Named) (hview : operation.isReading = true ∨ view = .builder)
    (depth : Nat) : ∀ st ∈ operation.statements view, view.Code (st.text depth) := by
  cases operation with
  | nothing => exact nofun
  | answerFalse =>
    exact List.forall_mem_singleton.2 (View.code_answer (View.term_anyOf (List.forall_mem_nil _) depth))
  | answerUndefined =>
    exact List.forall_mem_singleton.2
      (View.code_answer (View.term_of_eq rfl rfl (view.allows_of_head (by decide) _)))
  | testData kind offset =>
    refine List.forall_mem_singleton.2 (View.code_answer
      (View.term_anyOf (List.forall_mem_singleton.2 ?_) depth))
    exact View.code_storageCall (.hasData _) (isWord_suffixOf kind) _ (List.forall_mem_nil _)
  | readData kind offset mask? =>
    refine List.forall_mem_singleton.2 (View.code_answer (View.Code.term ?_))
    exact View.code_storageCall (.getData _ _) (isWord_suffixOf kind) _
      (view.term_maskArguments mask?)
  | writeData kind offset mask? =>
    obtain rfl : view = .builder := hview.resolve_left nofun
    refine List.forall_mem_singleton.2 (View.code_perform ?_ depth)
    exact View.code_storageCall (.setData _ _) (isWord_suffixOf kind) _
      (List.forall_mem_cons.2 ⟨View.term_given _ (by simp), View.term_maskArguments _ mask?⟩)
  | testPointer index =>
    refine List.forall_mem_singleton.2 (View.code_answer
      (View.term_anyOf (List.forall_mem_singleton.2 ?_) depth))
    exact View.code_storageCall .isPointerNull trivial _ (List.forall_mem_nil _)
  | readPointer shape index default? =>
    exact List.forall_mem_singleton.2 (View.code_answer
      (PointerShape.term_readAnswer h _ (view.term_defaultArguments default?) depth))
  | writePointer shape index =>
    obtain rfl : view = .builder := hview.resolve_left nofun
    exact List.forall_mem_singleton.2 (View.code_perform (PointerShape.code_writeCall h _) depth)
  | initPointer shape index =>
    obtain rfl : view = .builder := hview.resolve_left nofun
    exact List.forall_mem_singleton.2 (View.code_answer (PointerShape.term_initAnswer h _ depth))
  | adoptPointer shape index =>
    obtain rfl : view = .builder := hview.resolve_left nofun
    exact List.forall_mem_singleton.2 (View.code_perform (PointerShape.code_adoptCall h _) depth)
  | disownPointer shape index =>
    obtain rfl : view = .builder := hview.resolve_left nofun
    exact List.forall_mem_singleton.2
      (View.code_answer (View.Code.term (PointerShape.code_disownCall h _)))
  | testSlots slots =>
    exact List.forall_mem_singleton.2 (View.code_answer
      (View.term_anyOf (List.forall_mem_map.2 fun slot _ => code_slotTest slot) depth))
  | viewGroup type => exact List.forall_mem_singleton.2 (code_groupView (h view) depth)
  | clearSlots slots type =>
    obtain rfl : view = .builder := hview.resolve_left nofun
    exact List.forall_mem_append.2 ⟨List.forall_mem_map.2 fun slot _ => code_slotClear slot depth,
      List.forall_mem_singleton.2 (code_groupView (h _) depth)⟩

theorem code_guard (t : UnionTag) {verb : Verb} (hview : verb.isReading = true ∨ view = .builder)
    (depth : Nat) : view.Code ((t.guard verb).text depth) := by
  have hmessage := isUnescaped_of_eq (show UnionTag.inactiveMemberError = String.ofList _ from rfl) rfl
  have hset : view = .builder → view.Code ((t.guard .set).text depth) := by
    rintro rfl
    exact View.code_perform (View.code_storageCall (.setData _ _) (isWord_of_eq rfl rfl) _
      (List.forall_mem_singleton.2 (View.term_scalar _ (.number t.value.toNat)))) depth
  cases verb with
  | has => exact View.code_answerFalseUnless _ depth
  | get | disown => exact View.code_failUnless _ hmessage depth
  | set | init | adopt => exact hset (hview.resolve_left nofun)

theorem term_parameters (operation : Operation) : view.Term operation.parameters := by
  have hmem : operation.parameters ∈ ["", "value", "type", "size", "type, value"] := by
    unfold Operation.parameters
    split <;> simp
  simp only [List.mem_cons, List.not_mem_nil, or_false] at hmem
  rcases hmem with h | h | h | h | h
  · exact h ▸ View.term_of_eq rfl rfl trivial
  iterate 4 exact h ▸ View.term_of_eq rfl rfl (view.allows_of_head (by decide) _)

end Operation

theorem isWord_verb (verb : Verb) : IsWord verb.text := by
  cases verb <;> exact isWord_of_eq rfl rfl

/-- The bindings are made of names that code can be made of, and what a reader offers does not
write. -/
structure FieldBindings.Named (b : FieldBindings) : Prop where
  scope : ∀ view : View, view.Term b.scope
  name : isIdentifier b.name = true
  operations : ∀ a ∈ b.accessors, a.2.Named
  reading : ∀ a ∈ b.accessors, a.1.isReading = true → a.2.isReading = true

namespace FieldBindings

variable {b : FieldBindings} (h : b.Named) (view : View) (depth : Nat)
include h

theorem code_accessorText {verb : Verb} {operation : Operation}
    (ho : operation.Named) (hv : verb.isReading = true ∨ view = .builder)
    (hview : operation.isReading = true ∨ view = .builder) :
    view.Code (b.accessorText view depth verb operation) := by
  have hbody : ∀ st ∈ b.body view verb operation, view.Code (st.text (depth + 1)) := by
    refine List.forall_mem_append.2 ⟨?_, code_statements ho hview (depth + 1)⟩
    cases b.tag? with
    | none => exact List.forall_mem_nil _
    | some tag => exact List.forall_mem_singleton.2 (code_guard tag hv (depth + 1))
  -- whatever its layout, the code between the braces is statements with blanks around them
  have hlayout := View.code_of_spaced (operation.layout_spaced depth _) (List.forall_mem_map.2 hbody)
  unfold accessorText
  simp only [String.append_assoc]
  refine .append (View.code_of_isBlank (isBlank_indent depth)) <| .fixed rfl rfl <|
    .append (.member (isWord_verb verb)) <| .append (.member (isWord_titleCase h.name)) <|
    .fixed rfl rfl <| (term_parameters operation).scans ?_ <| .fixed rfl rfl <| .append hlayout <|
    .last rfl rfl
  exact (opens_of_eq rfl rfl).append _

theorem code_predicateText : view.Code (b.predicateText depth) := by
  unfold predicateText
  split
  · exact .last rfl rfl
  · simp only [String.append_assoc]
    refine .append (View.code_of_isBlank (isBlank_indent depth)) <| .fixed rfl rfl <|
      .append (.member (isWord_titleCase h.name)) <| .fixed rfl rfl <| (h.scope view).scans ?_ <|
      .fixed rfl rfl <| .append (.member (isWord_of_isIdentifier (isIdentifier_upperSnake h.name))) <|
      .last rfl rfl
    exact (opens_of_eq rfl rfl).append _

theorem code_text : view.Code (b.text view depth) := by
  unfold text
  split
  · exact .last rfl rfl
  refine (code_predicateText h view depth).append (View.Code.join (List.forall_mem_map.2 ?_))
  intro a ha
  cases view with
  | reader =>
    obtain ⟨ha, hread⟩ := List.mem_filter.1 ha
    exact code_accessorText h _ depth (h.operations a ha) (Or.inl hread) (Or.inl (h.reading a ha hread))
  | builder =>
    exact code_accessorText h _ depth (h.operations a ha) (Or.inr rfl) (Or.inr rfl)

end FieldBindings

theorem term_moduleScope {path : String} (h : IsDotted path) (view : View) :
    view.Term ("module." ++ path) := by
  obtain ⟨names, -, hnames, rfl⟩ := h
  have hpath : Scans view .member (String.intercalate "." names) .member :=
    holds_intercalate (P := fun text => Scans view .member text .member) (.last rfl rfl) .append
      (.last rfl rfl) fun name hn => .member (isWord_of_isIdentifier (hnames name hn))
  exact ⟨_, .fixed rfl rfl hpath, trivial⟩

/-- What is generated for a field of a struct with identifiers for names is code of either view. -/
theorem fieldBindings_named {context : FileContext} {used used' : UsedFiles}
    (hg : ∀ n ∈ context.graph.nodes, ∀ entry ∈ n.nested, isIdentifier entry.name = true)
    {path : String} (hpath : IsDotted path) {nodeId : UInt64} {s : StructInfo} {f : Field}
    (hname : isIdentifier f.name = true) {b : FieldBindings}
    (h : Generation.run (fieldBindings ("module." ++ path) nodeId s f) context used = (.ok b, used')) :
    b.Named := by
  obtain ⟨accessors, rfl, hcases⟩ := fieldBindings_eq_ok h
  have hscope := term_moduleScope hpath
  have haccessors : ∀ a ∈ accessors, a.2.Named ∧ (a.1.isReading = true → a.2.isReading = true) := by
    rcases hcases with ⟨slot, u, u', -, hslot⟩ | ⟨id, group, slots, -, -, -, rfl⟩
    · rcases slotAccessors_shapes hslot with ⟨-, rfl⟩ | ⟨-, rfl⟩ | ⟨-, rfl⟩ |
        ⟨shape, default?, hshape, rfl⟩
      · simp [voidAccessors, Operation.Named, Operation.isReading, Verb.isReading]
      · simp [dataAccessors, Operation.Named, Operation.isReading, Verb.isReading]
      · exact List.forall_mem_nil _
      · have hnamed : shape.Named := by
          cases hshape with
          | struct _ htype => exact typeExpr_madeOf hg htype
          | list _ htype => exact typeExpr_madeOf hg htype
          | _ => trivial
        simp [pointerAccessors, Operation.Named, Operation.isReading, Verb.isReading, hnamed]
    · have htype (view : View) : view.Term ("module." ++ path ++ "." ++ titleCase f.name) :=
        (hscope view).member (isWord_titleCase hname)
      simp [groupAccessors, Operation.Named, Operation.isReading, Verb.isReading, htype]
  exact ⟨hscope, hname, fun a ha => (haccessors a ha).1, fun a ha => (haccessors a ha).2⟩

end SchemaBindings.Bindings
