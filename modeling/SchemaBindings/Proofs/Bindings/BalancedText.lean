import SchemaBindings.Proofs.Bindings.BalancedCode

namespace SchemaBindings.Bindings

open SchemaBindings.Schema SchemaBindings.Text SchemaBindings.Outcome

theorem keeps_quotedNames (names : List String) : Keeps .code (quotedNames names) := by
  refine .intercalate (fun _ => .last rfl rfl) ?_
  intro text htext
  obtain ⟨name, -, rfl⟩ := List.mem_map.1 htext
  exact keeps_quote name

/-- A line may end in a comment. -/
theorem keeps_lines (depth : Nat) {texts : List String}
    (h : ∀ text ∈ texts, Keeps .code (text ++ "\n")) :
    Keeps .code (StructBody.lines depth texts) := by
  refine .join ?_
  intro line hline
  obtain ⟨text, htext, rfl⟩ := List.mem_map.1 hline
  rw [String.append_assoc]
  exact (plain_indent depth).keeps_code.append (h text htext)

/-- The names of a struct, of its fields and in their accessors are plain texts. -/
structure StructBody.WellNamed (b : StructBody) : Prop where
  path : Plain b.path
  fields : ∀ f ∈ b.info.fields, Plain f.name
  bindings : ∀ f ∈ b.bindings, f.WellNamed

namespace StructBody

variable {b : StructBody} (h : b.WellNamed)
include h

theorem plain_scope : Plain b.scope :=
  (plain_of_eq rfl rfl).append h.path

theorem ordered_plain : ∀ f ∈ b.ordered, Plain f.name := by
  intro f hf
  refine h.fields f ?_
  rcases List.mem_append.1 hf with hf | hf
  · exact List.mem_of_mem_filter (List.mem_mergeSort.1 hf)
  · exact List.mem_of_mem_filter hf

theorem keeps_tail (view : View) : ∀ line ∈ b.tail view, Keeps .code line := by
  have hscope := (plain_scope h).keeps_code
  cases view with
  | reader =>
    unfold tail
    simp only [List.forall_mem_cons, List.not_mem_nil, false_implies, implies_true, and_true,
      String.append_assoc]
    exact ⟨fun _ => .fixed rfl rfl <| .filled hscope <| .last rfl rfl, fun _ => .last rfl rfl,
      fun _ => .last rfl rfl, fun _ => .last rfl rfl⟩
  | builder =>
    unfold tail
    simp only [List.forall_mem_cons, List.not_mem_nil, false_implies, implies_true, and_true,
      String.append_assoc]
    exact ⟨fun _ => .fixed rfl rfl <| .filled hscope <| .last rfl rfl, fun _ => .last rfl rfl,
      fun _ => .last rfl rfl⟩

theorem keeps_entries {entry : Field → String}
    (hentry : ∀ f : Field, Plain f.name → Keeps .code (entry f)) :
    Keeps .code (String.intercalate ", " (b.ordered.map entry)) := by
  refine .intercalate (fun _ => .last rfl rfl) ?_
  intro text htext
  obtain ⟨f, hf, rfl⟩ := List.mem_map.1 htext
  exact hentry f (ordered_plain h f hf)

theorem keeps_tables (name : String) (view : View) :
    ∀ line ∈ b.tables name view, Keeps .code line := by
  have hget : Keeps .code (String.intercalate ", " (b.ordered.map getEntry)) := by
    refine keeps_entries h fun f hf => ?_
    unfold getEntry
    split
    · exact fun _ => .fixed rfl rfl <| (plain_titleCase hf).keeps_code _
    · exact fun _ => .last rfl rfl
  have hhas : Keeps .code (String.intercalate ", " (b.ordered.map hasEntry)) := by
    refine keeps_entries h fun f hf => ?_
    unfold hasEntry
    split
    · exact fun _ => .fixed rfl rfl <| (plain_titleCase hf).keeps_code _
    · exact fun _ => .last rfl rfl
  have hwhich : Keeps .code (if b.info.hasUnion then ", this.which()" else "") := by
    split
    · exact fun _ => .last rfl rfl
    · exact .empty _
  unfold tables
  simp only [List.forall_mem_cons, List.not_mem_nil, false_implies, implies_true, and_true,
    String.append_assoc]
  refine ⟨fun _ => .fixed rfl rfl <| .filled hget <| .last rfl rfl,
    fun _ => .fixed rfl rfl <| .filled hhas <| .last rfl rfl, fun _ => ?_⟩
  exact .fixed rfl rfl <| .filled (keeps_quote _) <| .fixed rfl rfl <|
    .filled (plain_scope h).keeps_code <| .fixed rfl rfl <| .filled hwhich <| .last rfl rfl

theorem keeps_viewText (name : String) (depth : Nat) (view : View) :
    Keeps .code (b.viewText name depth view) := by
  have hstart : Keeps .code (lines (depth + 1) (preamble view ++ b.whichLine view)) := by
    refine keeps_lines _ (List.forall_mem_append.2 ⟨?_, ?_⟩)
    · cases view with
      | reader => exact List.forall_mem_singleton.2 (.line fun _ => .last rfl rfl)
      | builder => exact List.forall_mem_nil _
    · intro line hline
      obtain ⟨call, hcall, rfl⟩ := List.mem_map.1 hline
      have hwell : call.WellNamed := by
        unfold whichCall? at hcall
        split at hcall
        · rw [List.mem_singleton.1 hcall]
          exact ⟨plain_of_eq rfl rfl, by simp⟩
        · cases hcall
      refine .line fun pending => ?_
      simp only [String.append_assoc]
      exact .fixed rfl rfl <| .filled (keeps_call hwell) <| .last rfl rfl
  have hfields : Keeps .code (String.join (b.bindings.map fun f => f.text view (depth + 1))) := by
    refine .join ?_
    intro text htext
    obtain ⟨f, hf, rfl⟩ := List.mem_map.1 htext
    exact FieldBindings.keeps_text (h.bindings f hf) view _
  have hend : Keeps .code (lines (depth + 1) (b.tail view ++ b.tables name view)) :=
    keeps_lines _ (List.forall_mem_append.2
      ⟨fun line hl => .line (keeps_tail h view line hl),
        fun line hl => .line (keeps_tables h name view line hl)⟩)
  have hindent := (plain_indent depth).keeps_code
  intro pending
  unfold viewText
  simp only [String.append_assoc]
  exact .filled hindent <| .filled (plain_className view).keeps_code <| .fixed rfl rfl <|
    .filled (plain_storage view).keeps_code <| .fixed rfl rfl <| .filled hstart <|
    .filled hfields <| .filled hend <| .filled hindent <| .last rfl rfl

theorem keeps_memberLines : ∀ line ∈ b.memberLines, Keeps .code (line ++ "\n") := by
  have htags : ∀ t ∈ b.tagConstants, Plain t.1 := by
    intro t ht
    unfold tagConstants at ht
    split at ht
    · obtain ⟨f, hf, rfl⟩ := List.mem_map.1 ht
      exact plain_upperSnake (h.fields f (List.mem_of_mem_filter hf))
    · cases ht
  have hnumber (n : Nat) : Keeps .code (decimal n) := (plain_decimal n).keeps_code
  unfold memberLines
  refine List.forall_mem_append.2 ⟨?_, ?_⟩
  · intro line hline
    obtain ⟨t, ht, rfl⟩ := List.mem_map.1 hline
    refine .line fun pending => ?_
    simp only [String.append_assoc]
    exact .filled (htags t ht).keeps_code <| .fixed rfl rfl <| .filled (hnumber _) <| .last rfl rfl
  · simp only [List.forall_mem_cons, List.not_mem_nil, false_implies, implies_true, and_true,
      String.append_assoc]
    refine ⟨fun _ => ?size, fun _ => ?element, fun _ => ?fields, fun _ => ?ordered, fun _ => ?path,
      fun _ => ?reader, fun _ => ?builder, fun _ => ?copy⟩
    case size =>
      exact .fixed rfl rfl <| .filled (hnumber _) <| .fixed rfl rfl <| .filled (hnumber _) <|
        .fixed rfl rfl <| .filled (hnumber _) <| .fixed rfl rfl <| .last rfl rfl
    case element => exact .fixed rfl rfl <| .last rfl rfl
    case fields =>
      exact .fixed rfl rfl <| .filled (keeps_quotedNames _) <| .fixed rfl rfl <| .last rfl rfl
    case ordered =>
      exact .fixed rfl rfl <| .filled (keeps_quotedNames _) <| .fixed rfl rfl <| .last rfl rfl
    case path =>
      exact .fixed rfl rfl <| .filled (h.path.keeps_literal .single) <| .fixed rfl rfl <|
        .last rfl rfl
    case reader => exact .fixed rfl rfl <| .last rfl rfl
    case builder => exact .fixed rfl rfl <| .last rfl rfl
    case copy => exact .fixed rfl rfl <| .last rfl rfl

theorem keeps_members (name : String) (depth : Nat) : Keeps .code (b.members name depth) :=
  ((keeps_lines depth (keeps_memberLines h)).append (keeps_viewText h name depth .reader)).append
    (keeps_viewText h name depth .builder)

end StructBody

theorem keeps_enumMembers {names : List String} (h : ∀ name ∈ names, Plain name) (depth : Nat) :
    Keeps .code (enumMembers depth names) := by
  refine keeps_lines depth (List.forall_mem_append.2 ⟨?_, List.forall_mem_singleton.2 fun _ => ?_⟩)
  · intro line hline
    obtain ⟨e, he, rfl⟩ := List.mem_map.1 hline
    have hname : Plain e.1 := h e.1 (List.fst_mem_of_mem_zipIdx he)
    refine .line fun pending => ?_
    simp only [String.append_assoc]
    exact .filled (plain_upperSnake hname).keeps_code <| .fixed rfl rfl <|
      .filled (plain_decimal _).keeps_code <| .last rfl rfl
  · simp only [String.append_assoc]
    exact .fixed rfl rfl <| .filled (keeps_quotedNames names) <| .fixed rfl rfl <| .last rfl rfl

theorem Placement.keeps_object {p : Placement} (h : Plain p.name) {members : String}
    (hm : Keeps .code members) : Keeps .code (p.object members) := by
  obtain ⟨topLevel, name, depth⟩ := p
  have hname : Keeps .code name := Plain.keeps_code h
  have hindent (depth : Nat) : Keeps .code (indent depth) := (plain_indent depth).keeps_code
  intro pending
  unfold object
  cases topLevel with
  | true =>
    simp only [if_true, String.append_assoc]
    exact .filled (hindent _) <| .fixed rfl rfl <| .filled hname <| .fixed rfl rfl <|
      .filled (hindent _) <| .fixed rfl rfl <| .filled hm <| .filled (hindent _) <|
      .fixed rfl rfl <| .filled (hindent _) <| .last rfl rfl
  | false =>
    simp only [Bool.false_eq_true, if_false, String.append_assoc]
    exact .filled (hindent _) <| .filled hname <| .fixed rfl rfl <|
      .filled (hindent _) <| .fixed rfl rfl <| .filled hm <| .filled (hindent _) <|
      .fixed rfl rfl <| .filled (hindent _) <| .last rfl rfl

theorem Placement.keeps_constant {p : Placement} (h : Plain p.name) {expression : String}
    (he : Keeps .code expression) : Keeps .code (p.constant expression) := by
  have hindent := (plain_indent p.depth).keeps_code
  have hname := (plain_upperSnake h).keeps_code
  intro pending
  unfold constant
  split
  · simp only [String.append_assoc]
    exact .filled hindent <| .fixed rfl rfl <| .filled hname <| .fixed rfl rfl <| .filled he <|
      .last rfl rfl
  · simp only [String.append_assoc]
    exact .filled hindent <| .filled hname <| .fixed rfl rfl <| .filled he <| .last rfl rfl

def Literal.WellNamed : Literal → Prop
  | enumerant type key => (∀ part ∈ type.path, Plain part) ∧ Plain key
  | _ => True

theorem Literal.keeps_text {value : Literal} (h : value.WellNamed) : Keeps .code value.text := by
  cases value with
  | undefined => exact fun _ => .last rfl rfl
  | boolean value => cases value <;> exact fun _ => .last rfl rfl
  | integer value => exact (plain_signedDecimal value).keeps_code
  | words value => exact keeps_wordPair value
  | single value => exact (plain_realText _ _ _).keeps_code
  | double value => exact (plain_realText _ _ _).keeps_code
  | enumerant type key =>
    exact (((plain_qualifiedName h.1).append (plain_of_eq rfl rfl)).append h.2).keeps_code

def ConstExpr.WellNamed : ConstExpr → Prop
  | literal value => value.WellNamed
  | struct type _ _ | list type _ _ => type.WellNamed
  | _ => True

theorem ConstExpr.keeps_expression {value : ConstExpr} (h : value.WellNamed) :
    Keeps .code value.expression := by
  have hnumber (n : Nat) : Keeps .code (decimal n) := (plain_decimal n).keeps_code
  intro pending
  unfold expression
  cases value with
  | literal value => exact Literal.keeps_text h pending
  | text nodeId offset size | data nodeId offset size =>
    dsimp only
    simp only [String.append_assoc]
    exact .fixed rfl rfl <| .filled (keeps_schemaRef nodeId) <| .fixed rfl rfl <|
      .filled (hnumber _) <| .fixed rfl rfl <| .filled (hnumber _) <| .last rfl rfl
  | struct type nodeId offset | list type nodeId offset =>
    dsimp only
    simp only [String.append_assoc]
    exact .fixed rfl rfl <| .filled (keeps_typeExpr h) <| .fixed rfl rfl <|
      .filled (keeps_schemaRef nodeId) <| .fixed rfl rfl <| .filled (hnumber _) <| .last rfl rfl

def Body.WellNamed : Body → Prop
  | struct body => body.WellNamed
  | enum (some names) => ∀ name ∈ names, Plain name
  | constant (some value) => value.WellNamed
  | _ => True

namespace Declaration

theorem keeps_textList {ds : List Declaration} (h : ∀ d ∈ ds, Keeps .code d.text) :
    Keeps .code (textList ds) := by
  induction ds with
  | nil => exact .empty _
  | cons d ds ih =>
    rw [List.forall_mem_cons] at h
    exact h.1.append (ih h.2)

/-- A declaration closes all that it opens if what is declared inside does. -/
theorem keeps_text {place : Placement} {entry : SchemaEntry} {body : Body}
    {children : List Declaration} (hplace : Plain place.name) (hbody : body.WellNamed)
    (hchildren : ∀ d ∈ children, Keeps .code d.text) :
    Keeps .code (mk place entry body children).text := by
  have hinside := keeps_textList hchildren
  cases body with
  | struct b => exact place.keeps_object hplace (hinside.append (b.keeps_members hbody _ _))
  | enum names? =>
    cases names? with
    | none => exact place.keeps_object hplace (.empty _)
    | some names => exact place.keeps_object hplace (keeps_enumMembers hbody _)
  | constant value? =>
    cases value? with
    | none => exact .empty _
    | some value => exact place.keeps_constant hplace (ConstExpr.keeps_expression hbody)
  | scope =>
    show Keeps .code (if children.isEmpty then "" else place.object (textList children))
    split
    · exact .empty _
    · exact place.keeps_object hplace hinside
  | nothing => exact .empty _

end Declaration

theorem keeps_bytesFrom (depth column : Nat) (bytes : List UInt8) :
    Keeps .code (bytesFrom depth column bytes) := by
  induction bytes generalizing column with
  | nil => exact .empty _
  | cons b bs ih =>
    unfold bytesFrom
    refine Keeps.append (.append (.append (.append ?_ ?_) (plain_decimal _).keeps_code) ?_) (ih _)
    · split
      · exact fun _ => .fixed rfl rfl <| (plain_indent depth).keeps_code _
      · exact .empty _
    · exact (plain_ofList (plain_replicate rfl _)).keeps_code
    · split
      · exact .empty _
      · exact fun _ => .last rfl rfl

theorem SchemaEntry.keeps_text (e : SchemaEntry) : Keeps .code e.text := by
  have hindent (depth : Nat) : Keeps .code (indent depth) := (plain_indent depth).keeps_code
  intro pending
  unfold SchemaEntry.text
  simp only [String.append_assoc]
  exact .filled (hindent _) <| .fixed rfl rfl <| .filled ((plain_hex _).keeps_literal .single) <|
    .fixed rfl rfl <| .filled (hindent _) <| .filled (keeps_bytesFrom _ _ _) <| .fixed rfl rfl <|
    .filled (hindent _) <| .last rfl rfl

/-- A text without line breaks. -/
def OnOneLine (text : String) : Prop :=
  ∀ c ∈ text.toList, isLineBreak c = false

instance (text : String) : Decidable (OnOneLine text) :=
  List.decidableBAll (fun c => isLineBreak c = false) text.toList

theorem onOneLine_ofList {cs : List Char} (h : ∀ c ∈ cs, isLineBreak c = false) :
    OnOneLine (String.ofList cs) := by
  intro c hc
  rw [String.toList_ofList] at hc
  exact h c hc

theorem onOneLine_baseName {path : String} (h : OnOneLine path) : OnOneLine (baseName path) := by
  unfold baseName
  split
  · exact onOneLine_ofList fun c hc => List.mem_singleton.1 hc ▸ (rfl : isLineBreak '.' = false)
  dsimp only
  split
  · exact onOneLine_ofList fun c hc => List.mem_singleton.1 hc ▸ (rfl : isLineBreak '/' = false)
  · apply onOneLine_ofList
    intro c hc
    have htake := List.mem_reverse.1 hc
    have hdrop := (List.takeWhile_sublist _).mem htake
    have hreverse := (List.dropWhile_sublist _).mem hdrop
    exact h c (List.mem_reverse.1 hreverse)

/-- The names in a file are plain texts; those that only comments have are on one line. -/
structure SourceFile.WellNamed (f : SourceFile) : Prop where
  displayName : OnOneLine f.displayName
  exportName : ∀ name, f.exportName? = some name → Plain name
  imports : ∀ i ∈ f.imports, OnOneLine i.name
  declarations : ∀ d ∈ f.declarations, Keeps .code d.text

namespace SourceFile

variable {f : SourceFile} (h : f.WellNamed)
include h

theorem keeps_header : Keeps .code f.header := by
  have hexport : Keeps .code
      ((f.exportName?.map fun name => "goog.provide('" ++ name ++ "');\n").getD "") := by
    cases hname : f.exportName? with
    | none => exact .empty _
    | some name =>
      intro pending
      simp only [Option.map_some, Option.getD_some, String.append_assoc]
      exact .fixed rfl rfl <| .filled ((h.exportName name hname).keeps_literal .single) <|
        .last rfl rfl
  have himports : Keeps .code
      (String.join (f.imports.map fun i => "goog.require('" ++ moduleName i.id ++ "');\n")) := by
    refine .join ?_
    intro text htext
    obtain ⟨i, -, rfl⟩ := List.mem_map.1 htext
    intro pending
    simp only [String.append_assoc]
    exact .fixed rfl rfl <| .filled ((plain_moduleName i.id).keeps_literal .single) <| .last rfl rfl
  intro pending
  unfold header
  simp only [String.append_assoc] at hexport himports ⊢
  exact .fixed rfl rfl <| .fixed rfl rfl <|
    .filled (keeps_comment (onOneLine_baseName h.displayName)) <| .fixed rfl rfl <|
    .fixed rfl rfl <| .filled ((plain_moduleName f.id).keeps_literal .single) <| .fixed rfl rfl <|
    .filled hexport <| .fixed rfl rfl <| .fixed rfl rfl <| himports pending

theorem keeps_locals : Keeps .code f.locals := by
  have hmodule (id : UInt64) : Keeps .code (moduleName id) := (plain_moduleName id).keeps_code
  have hindent (depth : Nat) : Keeps .code (indent depth) := (plain_indent depth).keeps_code
  have himports : Keeps .code (String.join (f.imports.map fun i =>
      indent 1 ++ "var " ++ importName i.id ++ " = " ++ moduleName i.id ++ "; // " ++ i.name
        ++ "\n")) := by
    refine .join ?_
    intro text htext
    obtain ⟨i, hi, rfl⟩ := List.mem_map.1 htext
    intro pending
    simp only [String.append_assoc]
    exact .filled (hindent 1) <| .fixed rfl rfl <| .filled (plain_importName i.id).keeps_code <|
      .fixed rfl rfl <| .filled (hmodule i.id) <| .fixed rfl rfl <|
      .filled (keeps_comment (h.imports i hi)) <| .last rfl rfl
  intro pending
  unfold locals
  simp only [String.append_assoc] at himports ⊢
  exact .filled (hindent 1) <| .fixed rfl rfl <| .filled (hmodule f.id) <| .fixed rfl rfl <|
    .filled (hindent 1) <| .fixed rfl rfl <| himports pending

theorem keeps_exportLine : Keeps .code f.exportLine := by
  unfold exportLine
  cases hname : f.exportName? with
  | none => exact .empty _
  | some name =>
    intro pending
    simp only [Option.map_some, Option.getD_some, String.append_assoc]
    exact .filled (plain_indent 1).keeps_code <| .fixed rfl rfl <|
      .filled (h.exportName name hname).keeps_code <| .fixed rfl rfl <|
      .filled (plain_moduleName f.id).keeps_code <| .last rfl rfl

/-- A file closes all that it opens. -/
theorem balanced_text : Balanced f.text := by
  have hschemas : Keeps .code f.schemas := by
    refine .join ?_
    intro text htext
    obtain ⟨e, -, rfl⟩ := List.mem_map.1 htext
    exact e.keeps_text
  have hdefinitions : Keeps .code f.definitions := Declaration.keeps_textList h.declarations
  show Reads ⟨.code, []⟩ f.text ⟨.code, []⟩
  unfold text
  simp only [String.append_assoc]
  exact .filled (keeps_header h) <| .fixed rfl rfl <| .filled (keeps_locals h) <| .fixed rfl rfl <|
    .filled hschemas <| .fixed rfl rfl <| .filled hdefinitions <| .filled (keeps_exportLine h) <|
    .last rfl rfl

end SourceFile

end SchemaBindings.Bindings
