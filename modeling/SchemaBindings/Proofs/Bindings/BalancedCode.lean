import SchemaBindings.Proofs.Bindings.MemberNames
import SchemaBindings.Proofs.Bindings.Naming
import SchemaBindings.Proofs.Text.Brackets

namespace SchemaBindings

open SchemaBindings.Schema SchemaBindings.Layout SchemaBindings.Number SchemaBindings.Text

namespace Number

variable {digits : List Char} (h : ∀ c ∈ digits, isPlain c = true)

theorem WrittenForm.plain_exponentText (t : WrittenForm) (e : Int) : Plain (t.exponentText e) := by
  have hmark : Plain (if e < 0 then "e-" else "e+") := by
    split
    · exact plain_of_eq rfl rfl
    · exact plain_of_eq rfl rfl
  refine hmark.append (plain_ofList ?_)
  intro c hc
  rcases List.mem_append.1 hc with hc | hc
  · exact plain_replicate rfl _ c hc
  · exact plain_toDigits (by decide) (by decide) _ c hc

include h in
theorem WrittenForm.plain_scientific (t : WrittenForm) (e : Int) :
    Plain (t.scientific digits e) := by
  unfold scientific
  split
  · exact plain_of_eq rfl rfl
  next d =>
    refine Plain.append ?_ (t.plain_exponentText e)
    intro c hc
    rw [String.toList_singleton, List.mem_singleton] at hc
    rw [hc]
    exact h d List.mem_cons_self
  next d ds _ =>
    refine (plain_ofList ?_).append (t.plain_exponentText e)
    rw [List.forall_mem_cons, List.forall_mem_cons]
    rw [List.forall_mem_cons] at h
    exact ⟨h.1, rfl, h.2⟩

include h in
theorem WrittenForm.plain_positional (point : Int) : Plain (positional digits point) := by
  unfold positional
  split
  · apply plain_ofList
    intro c hc
    simp only [List.cons_append, List.mem_cons, List.mem_append] at hc
    rcases hc with rfl | rfl | hc | hc
    · rfl
    · rfl
    · exact plain_replicate rfl _ c hc
    · exact h c hc
  split
  · apply plain_ofList
    intro c hc
    rcases List.mem_append.1 hc with hc | hc
    · exact h c hc
    · exact plain_replicate rfl _ c hc
  · apply plain_ofList
    intro c hc
    simp only [List.mem_append, List.mem_cons] at hc
    rcases hc with hc | rfl | hc
    · exact h c (List.mem_of_mem_take hc)
    · rfl
    · exact h c (List.mem_of_mem_drop hc)

theorem BinaryFormat.plain_text (f : BinaryFormat) (pattern : Nat) : Plain (f.text pattern) := by
  have hsign : Plain (if f.isNegative pattern then "-" else "") := by
    split
    · exact plain_of_eq rfl rfl
    · exact plain_empty
  unfold BinaryFormat.text
  dsimp only
  split
  · exact plain_of_eq rfl rfl
  split
  · split
    · exact plain_of_eq rfl rfl
    · exact plain_of_eq rfl rfl
  split
  · exact hsign.append (plain_of_eq rfl rfl)
  · refine hsign.append ?_
    unfold WrittenForm.decimal
    dsimp only
    split
    · exact WrittenForm.plain_scientific (plain_toDigits (by decide) (by decide) _) _ _
    · exact WrittenForm.plain_positional (plain_toDigits (by decide) (by decide) _) _

end Number

namespace Bindings

theorem isPlain_capital {c : Char} (h : isPlain c = true) : isPlain (capital c) = true := by
  unfold capital
  split
  next hlower =>
    have hupper : ∀ n < 123, 97 ≤ n → isPlain (Char.ofNat (n - 32)) = true := by decide
    have hbounds := isLower_iff.1 hlower
    exact hupper c.toNat (Nat.lt_succ_of_le hbounds.2) hbounds.1
  next => exact h

theorem plain_titleCase {name : String} (h : Plain name) : Plain (titleCase name) := by
  unfold Plain at h
  unfold titleCase
  cases hcs : name.toList with
  | nil => exact plain_empty
  | cons c cs =>
    rw [hcs, List.forall_mem_cons] at h
    exact plain_ofList (List.forall_mem_cons.2 ⟨isPlain_capital h.1, h.2⟩)

theorem plain_upperRest {cs : List Char} (h : ∀ c ∈ cs, isPlain c = true) :
    ∀ c ∈ upperRest cs, isPlain c = true := by
  induction cs with
  | nil => simp [upperRest]
  | cons c cs ih =>
    rw [List.forall_mem_cons] at h
    unfold upperRest
    split
    · simp only [List.forall_mem_cons]
      exact ⟨rfl, h.1, ih h.2⟩
    · rw [List.forall_mem_cons]
      exact ⟨isPlain_capital h.1, ih h.2⟩

theorem plain_upperSnake {name : String} (h : Plain name) : Plain (upperSnake name) := by
  unfold Plain at h
  unfold upperSnake
  cases hcs : name.toList with
  | nil => exact plain_empty
  | cons c cs =>
    rw [hcs, List.forall_mem_cons] at h
    exact plain_ofList (List.forall_mem_cons.2 ⟨isPlain_capital h.1, plain_upperRest h.2⟩)

theorem plain_joinPath {path name : String} (hp : Plain path) (hn : Plain name) :
    Plain (joinPath path name) := by
  unfold joinPath
  split
  · exact hn
  · exact (hp.append (plain_of_eq rfl rfl)).append hn

theorem plain_moduleName (id : UInt64) : Plain (moduleName id) :=
  (plain_of_eq rfl rfl).append (plain_hex _)

theorem plain_importName (id : UInt64) : Plain (importName id) :=
  (plain_of_eq rfl rfl).append (plain_hex _)

theorem plain_root (root : Root) : Plain root.text := by
  cases root with
  | own => exact plain_of_eq rfl rfl
  | foreign id => exact plain_importName id
  | provided id => exact plain_moduleName id

theorem plain_qualifiedName {q : QualifiedName} (h : ∀ name ∈ q.path, Plain name) :
    Plain q.text := by
  have hfold : ∀ (names : List String) (text : String), Plain text → (∀ name ∈ names, Plain name) →
      Plain (names.foldl (fun text name => text ++ "." ++ name) text) := by
    intro names
    induction names with
    | nil => exact fun _ ht _ => ht
    | cons name names ih =>
      intro text ht hn
      rw [List.forall_mem_cons] at hn
      exact ih _ ((ht.append (plain_of_eq rfl rfl)).append hn.1) hn.2
  exact hfold q.path _ (plain_root q.root) h

theorem keeps_schemaRef (id : UInt64) : Keeps .code (schemaRef id) := by
  intro pending
  unfold schemaRef
  simp only [String.append_assoc]
  exact .fixed rfl rfl <| .filled ((plain_hex _).keeps_literal .single) <| .last rfl rfl

theorem keeps_wordPair (p : WordPair) : Keeps .code p.text := by
  intro pending
  unfold WordPair.text
  simp only [String.append_assoc]
  exact .fixed rfl rfl <| .filled (plain_signedDecimal _).keeps_code <| .fixed rfl rfl <|
    .filled (plain_decimal _).keeps_code <| .last rfl rfl

theorem keeps_scalar (v : Scalar) : Keeps .code v.text := by
  cases v with
  | flag value => cases value <;> exact fun _ => .last rfl rfl
  | number value => exact (plain_signedDecimal value).keeps_code
  | words value => exact keeps_wordPair value

theorem plain_realText (format : BinaryFormat) (pattern : Nat) (x : Double) :
    Plain (realText format pattern x) := by
  unfold realText
  split
  · exact plain_of_eq rfl rfl
  split
  · split
    · exact plain_of_eq rfl rfl
    · exact plain_of_eq rfl rfl
  · exact format.plain_text pattern

/-- The names in the expression are plain texts. -/
def TypeExpr.WellNamed : TypeExpr → Prop
  | runtime name => Plain name
  | declared name => ∀ part ∈ name.path, Plain part
  | list _ element => element.WellNamed
  | untyped => True

theorem plain_listClass (c : ListClass) : Plain c.text := by
  cases c <;> exact plain_of_eq rfl rfl

theorem keeps_typeExpr {type : TypeExpr} (h : type.WellNamed) : Keeps .code type.text := by
  induction type with
  | runtime name => exact Plain.keeps_code h
  | declared name => exact (plain_qualifiedName h).keeps_code
  | list c element ih =>
    intro pending
    unfold TypeExpr.text
    simp only [String.append_assoc]
    exact .filled (plain_listClass c).keeps_code <| .fixed rfl rfl <| .filled (ih h) <| .last rfl rfl
  | untyped => exact .empty _

def StorageMethod.WellNamed : StorageMethod → Prop
  | hasData type | getData type _ | setData type _ => Plain type
  | _ => True

theorem plain_storageMethod {method : StorageMethod} (h : method.WellNamed) :
    Plain method.text := by
  have hmasked (masked : Bool) : Plain (if masked then "_masked" else "") := by
    cases masked
    · exact plain_empty
    · exact plain_of_eq rfl rfl
  cases method with
  | hasData type => exact (plain_of_eq rfl rfl).append h
  | getData type masked => exact ((plain_of_eq rfl rfl).append h).append (hmasked masked)
  | setData type masked => exact ((plain_of_eq rfl rfl).append h).append (hmasked masked)
  | _ => exact plain_of_eq rfl rfl

def Argument.WellNamed : Argument → Prop
  | given name => Plain name
  | classOf type | sizeOf type => type.WellNamed
  | _ => True

theorem keeps_argument {a : Argument} (h : a.WellNamed) : Keeps .code a.text := by
  cases a with
  | given name => exact Plain.keeps_code h
  | scalar value => exact keeps_scalar value
  | count value => exact (plain_decimal value).keeps_code
  | embedded nodeId byteOffset =>
    intro pending
    unfold Argument.text
    simp only [String.append_assoc]
    exact .filled (keeps_schemaRef nodeId) <| .fixed rfl rfl <|
      .filled (plain_decimal byteOffset).keeps_code <| .last rfl rfl
  | classOf type => exact keeps_typeExpr h
  | sizeOf type => exact fun _ => .filled (keeps_typeExpr h) <| .last rfl rfl

theorem plain_storage (view : View) : Plain view.storage := by
  cases view <;> exact plain_of_eq rfl rfl

theorem plain_className (view : View) : Plain view.className := by
  cases view <;> exact plain_of_eq rfl rfl

def PointerFunction.WellNamed : PointerFunction → Prop
  | helper name => Plain name
  | classMethod type name => type.WellNamed ∧ Plain name

theorem keeps_pointerFunction {function : PointerFunction} (h : function.WellNamed) :
    Keeps .code function.text := by
  cases function with
  | helper name => exact ((plain_of_eq rfl rfl).append h).keeps_code
  | classMethod type name =>
    intro pending
    unfold PointerFunction.text
    simp only [String.append_assoc]
    exact .filled (keeps_typeExpr h.1) <| .fixed rfl rfl <| h.2.keeps_code pending

def Call.WellNamed : Call → Prop
  | storage _ method _ rest => method.WellNamed ∧ ∀ a ∈ rest, a.WellNamed
  | pointer function type? _ _ rest =>
    function.WellNamed ∧ (∀ a ∈ type?, a.WellNamed) ∧ ∀ a ∈ rest, a.WellNamed

theorem keeps_arguments {arguments : List Argument} (h : ∀ a ∈ arguments, a.WellNamed) :
    ∀ text ∈ arguments.map Argument.text, Keeps .code text := by
  intro text ht
  obtain ⟨a, ha, rfl⟩ := List.mem_map.1 ht
  exact keeps_argument (h a ha)

theorem keeps_call {call : Call} (h : call.WellNamed) : Keeps .code call.text := by
  have hcomma : Keeps .code ", " := fun _ => .last rfl rfl
  intro pending
  unfold Call.text
  cases call with
  | storage view method index rest =>
    dsimp only
    simp only [String.append_assoc]
    have hrest : Keeps .code (String.intercalate ", " (decimal index :: rest.map Argument.text)) :=
      .intercalate hcomma
        (List.forall_mem_cons.2 ⟨(plain_decimal index).keeps_code, keeps_arguments h.2⟩)
    exact .filled (plain_storage view).keeps_code <| .fixed rfl rfl <|
      .filled (plain_storageMethod h.1).keeps_code <| .fixed rfl rfl <| .filled hrest <|
      .last rfl rfl
  | pointer function type? view index rest =>
    dsimp only
    simp only [String.append_assoc]
    have htype : ∀ a ∈ type?.toList, a.WellNamed := fun a ha => h.2.1 a (Option.mem_toList.1 ha)
    have hrest : Keeps .code (String.intercalate ", " (type?.toList.map Argument.text
        ++ view.storage :: decimal index :: rest.map Argument.text)) := by
      refine .intercalate hcomma (List.forall_mem_append.2 ⟨keeps_arguments htype, ?_⟩)
      simp only [List.forall_mem_cons]
      exact ⟨(plain_storage view).keeps_code, (plain_decimal index).keeps_code,
        keeps_arguments h.2.2⟩
    exact .filled (keeps_pointerFunction h.1) <| .fixed rfl rfl <| .filled hrest <| .last rfl rfl

theorem keeps_test {test : Test} (h : test.call.WellNamed) : Keeps .code test.text := by
  unfold Test.text
  refine .append ?_ (keeps_call h)
  split
  · exact fun _ => .last rfl rfl
  · exact .empty _

def Answer.WellNamed : Answer → Prop
  | undefined => True
  | anyOf tests => ∀ t ∈ tests, t.call.WellNamed
  | result call => call.WellNamed
  | structView type _ call => type.WellNamed ∧ call.WellNamed
  | groupView type _ => Plain type

theorem keeps_answer {answer : Answer} (h : answer.WellNamed) (depth : Nat) :
    Keeps .code (answer.text depth) := by
  unfold Answer.text
  cases answer with
  | undefined => exact fun _ => .last rfl rfl
  | anyOf tests =>
    dsimp only
    split
    · exact fun _ => .last rfl rfl
    · refine .intercalate ?_ ?_
      · intro pending
        simp only [String.append_assoc]
        exact .fixed rfl rfl <| .filled (plain_indent depth).keeps_code <| .last rfl rfl
      · intro text htext
        obtain ⟨t, ht, rfl⟩ := List.mem_map.1 htext
        exact keeps_test (h t ht)
  | result call => exact keeps_call h
  | structView type view call =>
    intro pending
    dsimp only
    simp only [String.append_assoc]
    exact .fixed rfl rfl <| .filled (keeps_typeExpr h.1) <| .fixed rfl rfl <|
      .filled (plain_className view).keeps_code <| .fixed rfl rfl <| .filled (keeps_call h.2) <|
      .last rfl rfl
  | groupView type view =>
    intro pending
    dsimp only
    simp only [String.append_assoc]
    exact .fixed rfl rfl <| .filled (Plain.keeps_code h) <| .fixed rfl rfl <|
      .filled (plain_className view).keeps_code <| .fixed rfl rfl <|
      .filled (plain_storage view).keeps_code <| .last rfl rfl

def Statement.WellNamed : Statement → Prop
  | perform call => call.WellNamed
  | answer value => value.WellNamed
  | _ => True

theorem keeps_statement {statement : Statement} (h : statement.WellNamed) (depth : Nat) :
    Keeps .code (statement.text depth) := by
  intro pending
  unfold Statement.text
  cases statement with
  | perform call => exact .filled (keeps_call h) <| .last rfl rfl
  | answer value =>
    dsimp only
    simp only [String.append_assoc]
    exact .fixed rfl rfl <| .filled (keeps_answer h depth) <| .last rfl rfl
  | answerFalseUnless tag =>
    dsimp only
    simp only [String.append_assoc]
    exact .fixed rfl rfl <| .filled (plain_decimal _).keeps_code <| .last rfl rfl
  | failUnless tag message =>
    dsimp only
    simp only [String.append_assoc]
    exact .fixed rfl rfl <| .filled (plain_decimal _).keeps_code <| .fixed rfl rfl <|
      .filled (keeps_quote message) <| .last rfl rfl

theorem plain_suffixOf (kind : Kind) : Plain (suffixOf kind) := by
  cases kind <;> exact plain_of_eq rfl rfl

def PointerShape.WellNamed : PointerShape → Prop
  | struct type | list type => type.WellNamed
  | _ => True

theorem PointerShape.typeExpr_wellNamed {shape : PointerShape} (h : shape.WellNamed) :
    shape.typeExpr.WellNamed := by
  cases shape with
  | struct type => exact h
  | list type => exact h
  | any => trivial
  | _ => exact plain_of_eq rfl rfl

/-- The names in the operation are plain texts. -/
def Operation.WellNamed : Operation → Prop
  | readPointer shape _ _ | writePointer shape _ | initPointer shape _ | adoptPointer shape _
  | disownPointer shape _ => shape.WellNamed
  | viewGroup type | clearSlots _ type => Plain type
  | _ => True

theorem slotTest_wellNamed (view : View) (slot : Slot) : (slotTest view slot).call.WellNamed := by
  unfold slotTest
  split
  · exact ⟨trivial, by simp⟩
  · exact ⟨plain_suffixOf _, by simp⟩

theorem slotClear_wellNamed (slot : Slot) : (slotClear slot).WellNamed := by
  unfold slotClear
  split
  · exact ⟨trivial, by simp⟩
  · exact ⟨plain_suffixOf _, by simp [Argument.WellNamed]⟩

theorem maskArguments_wellNamed (mask? : Option Mask) : ∀ a ∈ maskArguments mask?, a.WellNamed := by
  intro a ha
  obtain ⟨mask, -, rfl⟩ := List.mem_map.1 ha
  trivial

theorem pointerDefault_wellNamed (d : PointerDefault) : ∀ a ∈ d.arguments, a.WellNamed := by
  intro a ha
  rcases List.mem_cons.1 ha with rfl | ha
  · trivial
  · obtain ⟨size, -, rfl⟩ := List.mem_map.1 ha
    trivial

theorem given_wellNamed {name : String} (h : Plain name) :
    ∀ a ∈ [Argument.given name], a.WellNamed := by
  intro a ha
  rw [List.mem_singleton.1 ha]
  exact h

namespace PointerShape

theorem plain_helperName (shape : PointerShape) : Plain shape.helperName := by
  cases shape <;> exact plain_of_eq rfl rfl

variable {shape : PointerShape} (h : shape.WellNamed)
include h

theorem type_wellNamed : shape.type.WellNamed := by
  cases shape with
  | any => exact (plain_of_eq rfl rfl : Plain "type")
  | _ => exact typeExpr_wellNamed h

theorem helperType?_wellNamed : ∀ a ∈ shape.helperType?, a.WellNamed := by
  intro a ha
  cases shape with
  | text => cases ha
  | data => cases ha
  | _ =>
    cases ha
    exact type_wellNamed h

theorem readAnswer_wellNamed {initial : List Argument} (hi : ∀ a ∈ initial, a.WellNamed)
    (view : View) (index : Nat) : (shape.readAnswer view index initial).WellNamed := by
  have hget : Plain ("get" ++ view.className) := (plain_of_eq rfl rfl).append (plain_className view)
  cases shape with
  | struct type =>
    cases view with
    | reader => exact ⟨h, trivial, hi⟩
    | builder => exact ⟨h, trivial, List.forall_mem_cons.2 ⟨h, hi⟩⟩
  | any =>
    refine ⟨(plain_of_eq rfl rfl).append (plain_className view), ?_, hi⟩
    intro a ha
    cases ha
    exact (plain_of_eq rfl rfl : Plain "type")
  | _ => exact ⟨⟨typeExpr_wellNamed h, hget⟩, nofun, hi⟩

theorem writeCall_wellNamed (index : Nat) : (shape.writeCall index).WellNamed :=
  ⟨shape.plain_helperName.append (plain_of_eq rfl rfl), helperType?_wellNamed h,
    given_wellNamed (plain_of_eq rfl rfl)⟩

theorem initAnswer_wellNamed (index : Nat) : (shape.initAnswer index).WellNamed := by
  have hsize : ∀ a ∈ [Argument.given "size"], a.WellNamed := given_wellNamed (plain_of_eq rfl rfl)
  cases shape with
  | struct type => exact ⟨h, trivial, List.forall_mem_cons.2 ⟨h, by simp⟩⟩
  | list type =>
    refine ⟨plain_of_eq rfl rfl, ?_, hsize⟩
    intro a ha
    cases ha
    exact h
  | any => exact ⟨plain_of_eq rfl rfl, nofun, given_wellNamed (plain_of_eq rfl rfl)⟩
  | _ => exact ⟨⟨typeExpr_wellNamed h, plain_of_eq rfl rfl⟩, nofun, hsize⟩

theorem adoptCall_wellNamed (index : Nat) : (shape.adoptCall index).WellNamed := by
  have hvalue : ∀ a ∈ [Argument.given "value"], a.WellNamed :=
    given_wellNamed (plain_of_eq rfl rfl)
  cases shape <;> refine ⟨plain_of_eq rfl rfl, ?_, hvalue⟩ <;> intro a ha <;> cases ha <;>
    exact type_wellNamed h

theorem disownCall_wellNamed (index : Nat) : (shape.disownCall index).WellNamed :=
  ⟨shape.plain_helperName.append (plain_of_eq rfl rfl), helperType?_wellNamed h, by simp⟩

end PointerShape

theorem Operation.statements_wellNamed {operation : Operation} (h : operation.WellNamed)
    (view : View) : ∀ statement ∈ operation.statements view, statement.WellNamed := by
  cases operation with
  | nothing => simp [statements]
  | answerFalse => simp [statements, Statement.WellNamed, Answer.WellNamed]
  | answerUndefined => simp [statements, Statement.WellNamed, Answer.WellNamed]
  | testData kind offset =>
    simpa [statements, Statement.WellNamed, Answer.WellNamed, Call.WellNamed,
      StorageMethod.WellNamed] using plain_suffixOf kind
  | readData kind offset mask? =>
    refine List.forall_mem_singleton.2 ⟨plain_suffixOf kind, maskArguments_wellNamed mask?⟩
  | writeData kind offset mask? =>
    refine List.forall_mem_singleton.2 ⟨plain_suffixOf kind, ?_⟩
    exact List.forall_mem_cons.2 ⟨plain_of_eq rfl rfl, maskArguments_wellNamed mask?⟩
  | testPointer index =>
    simp [statements, Statement.WellNamed, Answer.WellNamed, Call.WellNamed,
      StorageMethod.WellNamed]
  | readPointer shape index default? =>
    refine List.forall_mem_singleton.2 (PointerShape.readAnswer_wellNamed h ?_ view _)
    cases default? with
    | none => simp
    | some d => exact pointerDefault_wellNamed d
  | writePointer shape index =>
    exact List.forall_mem_singleton.2 (PointerShape.writeCall_wellNamed h index.toNat)
  | initPointer shape index =>
    exact List.forall_mem_singleton.2 (PointerShape.initAnswer_wellNamed h index.toNat)
  | adoptPointer shape index =>
    exact List.forall_mem_singleton.2 (PointerShape.adoptCall_wellNamed h index.toNat)
  | disownPointer shape index =>
    exact List.forall_mem_singleton.2 (PointerShape.disownCall_wellNamed h index.toNat)
  | testSlots slots =>
    refine List.forall_mem_singleton.2 ?_
    intro t ht
    obtain ⟨slot, -, rfl⟩ := List.mem_map.1 ht
    exact slotTest_wellNamed view slot
  | viewGroup type => exact List.forall_mem_singleton.2 h
  | clearSlots slots type =>
    refine List.forall_mem_append.2 ⟨?_, List.forall_mem_singleton.2 h⟩
    intro statement hs
    obtain ⟨slot, -, rfl⟩ := List.mem_map.1 hs
    exact slotClear_wellNamed slot

theorem UnionTag.guard_wellNamed (tag : UnionTag) (verb : Verb) : (tag.guard verb).WellNamed := by
  have hwrite : (Call.storage .builder (.setData "uint16" false) tag.offset.toNat
      [.scalar (.number tag.value.toNat)]).WellNamed :=
    ⟨plain_of_eq rfl rfl, by simp [Argument.WellNamed]⟩
  cases verb with
  | has | get | disown => trivial
  | set | init | adopt => exact hwrite

theorem Operation.plain_parameters (operation : Operation) : Plain operation.parameters := by
  unfold parameters
  split <;> exact plain_of_eq rfl rfl

theorem Operation.keeps_layout (operation : Operation) (depth : Nat) {texts : List String}
    (h : ∀ text ∈ texts, Keeps .code text) : Keeps .code (operation.layout depth texts) := by
  have hindent (depth : Nat) : Keeps .code (indent depth) := (plain_indent depth).keeps_code
  have hspace : Keeps .code " " := fun _ => .last rfl rfl
  have hline : Keeps .code "\n" := fun _ => .last rfl rfl
  unfold layout
  split
  · exact (((hline.append (hindent _)).append (.intercalate hspace h)).append hline).append
      (hindent _)
  · refine (hline.append (.join ?_)).append (hindent _)
    intro text htext
    obtain ⟨part, hpart, rfl⟩ := List.mem_map.1 htext
    exact ((hindent _).append (h part hpart)).append hline
  · refine hspace.append (.join ?_)
    intro text htext
    obtain ⟨part, hpart, rfl⟩ := List.mem_map.1 htext
    exact (h part hpart).append hspace

/-- The names of a field and of what its accessors work with are plain texts. -/
structure FieldBindings.WellNamed (b : FieldBindings) : Prop where
  scope : Plain b.scope
  name : Plain b.name
  operations : ∀ a ∈ b.accessors, a.2.WellNamed

namespace FieldBindings

variable {b : FieldBindings} (h : b.WellNamed)
include h

theorem keeps_accessorText (view : View) (depth : Nat) (verb : Verb) {operation : Operation}
    (ho : operation.WellNamed) : Keeps .code (b.accessorText view depth verb operation) := by
  have hverb : Plain verb.text := by cases verb <;> exact plain_of_eq rfl rfl
  have hbody : ∀ statement ∈ b.body view verb operation, statement.WellNamed := by
    refine List.forall_mem_append.2 ⟨?_, operation.statements_wellNamed ho view⟩
    intro statement hs
    obtain ⟨tag, -, rfl⟩ := Option.map_eq_some_iff.1 (Option.mem_toList.1 hs)
    exact tag.guard_wellNamed verb
  have hlayout : Keeps .code (operation.layout depth
      ((b.body view verb operation).map (Statement.text (depth + 1)))) := by
    refine operation.keeps_layout depth ?_
    intro text htext
    obtain ⟨statement, hs, rfl⟩ := List.mem_map.1 htext
    exact keeps_statement (hbody statement hs) _
  intro pending
  unfold accessorText
  simp only [String.append_assoc]
  exact .filled (plain_indent depth).keeps_code <| .fixed rfl rfl <| .filled hverb.keeps_code <|
    .filled (plain_titleCase h.name).keeps_code <| .fixed rfl rfl <|
    .filled operation.plain_parameters.keeps_code <| .fixed rfl rfl <| .filled hlayout <|
    .last rfl rfl

theorem keeps_predicateText (depth : Nat) : Keeps .code (b.predicateText depth) := by
  unfold predicateText
  split
  · exact .empty _
  · intro pending
    simp only [String.append_assoc]
    exact .filled (plain_indent depth).keeps_code <| .fixed rfl rfl <|
      .filled (plain_titleCase h.name).keeps_code <| .fixed rfl rfl <| .filled h.scope.keeps_code <|
      .fixed rfl rfl <| .filled (plain_upperSnake h.name).keeps_code <| .last rfl rfl

/-- What a view has for a field closes all that it opens. -/
theorem keeps_text (view : View) (depth : Nat) : Keeps .code (b.text view depth) := by
  unfold text
  split
  · exact .empty _
  · refine (keeps_predicateText h depth).append (.join ?_)
    intro part hpart
    obtain ⟨a, ha, rfl⟩ := List.mem_map.1 hpart
    have hmem : a ∈ b.accessors := by
      cases view with
      | reader => exact List.mem_of_mem_filter ha
      | builder => exact ha
    exact keeps_accessorText h view depth a.1 (h.operations a hmem)

end FieldBindings

end Bindings
end SchemaBindings
