import SchemaBindings.Proofs.Bindings.MemberTables
import SchemaBindings.Proofs.Text.StringLiteral

namespace SchemaBindings.Bindings

open SchemaBindings.Schema SchemaBindings.Text

theorem literalList_quotedNames (names : List String) :
    LiteralList (quotedNames names).toList
      (names.map fun name => name.toList.flatMap quotedUnits) := by
  unfold quotedNames
  induction names with
  | nil => exact .empty
  | cons name names ih =>
    cases names with
    | nil =>
      have hread := literal?_quote name []
      rw [List.append_nil] at hread
      exact .last hread
    | cons next names =>
      have hread := literal?_quote name
        (',' :: ' ' :: (String.intercalate ", " ((next :: names).map quote)).toList)
      have htext : (String.intercalate ", " ((name :: next :: names).map quote)).toList =
          (quote name).toList
            ++ ',' :: ' ' :: (String.intercalate ", " ((next :: names).map quote)).toList := by
        simp [String.toList_append]
      exact .cons (htext ▸ hread) ih (by simp)

/-- The literals of a list denote the names that they are written for just if quoting keeps the
characters of all of them. -/
theorem denotesAll_quotedNames_iff (names : List String) :
    DenotesAll (quotedNames names) names ↔ ∀ name ∈ names, KeptText name := by
  have hlist := literalList_quotedNames names
  have heq : DenotesAll (quotedNames names) names ↔
      (names.map fun name => name.toList.flatMap quotedUnits) = names.map textUnits := by
    constructor
    · intro h
      exact hlist.unique h
    · intro h
      rwa [h] at hlist
  rw [heq, List.map_inj_left]
  simp only [flatMap_quotedUnits_eq_iff]

theorem keptText_append {text text' : String} :
    KeptText (text ++ text') ↔ KeptText text ∧ KeptText text' := by
  unfold KeptText
  rw [String.toList_append, List.forall_mem_append]

/-- The name of a view is denoted just if quoting keeps the name of the struct. -/
theorem denotes_label_iff (name : String) (view : View) :
    Denotes (quote (name ++ "." ++ view.className)) (name ++ "." ++ view.className) ↔
      KeptText name := by
  have hdot : KeptText "." := List.all_eq_true.1 rfl
  have hview : KeptText view.className := by
    cases view <;> exact List.all_eq_true.1 rfl
  rw [denotes_quote_iff, keptText_append, keptText_append]
  simp [hdot, hview]

namespace StructBody

/-- The object of a struct lists the names of its fields in two lists of literals, as declared and
by tag, and each of its views prints itself under a label. -/
structure QuotesNames (b : StructBody) (name : String) (depth : Nat) : Prop where
  lists : ∃ before declared byTag between, b.members name depth =
      before ++ ("FIELD_LIST: [" ++ declared ++ "],\n" ++ indent depth
        ++ "FIELDS_BY_DISCRIMINANT: [" ++ byTag ++ "],\n")
      ++ between ++ b.viewText name depth .reader ++ b.viewText name depth .builder ∧
    (DenotesAll declared (b.info.fields.map Field.name) ↔ ∀ f ∈ b.info.fields, KeptText f.name) ∧
    (DenotesAll byTag ((byDiscriminant b.info.fields).map Field.name) ↔
      ∀ f ∈ b.info.fields, KeptText f.name)
  labels : ∀ view, ∃ before label after, b.viewText name depth view =
      before ++ ("capnp.genhelper.ToStringHelper(this, " ++ label ++ ", ") ++ after ∧
    (Denotes label (name ++ "." ++ view.className) ↔ KeptText name)

theorem names_quoted (b : StructBody) (name : String) (depth : Nat) :
    ∃ before between, b.members name depth =
      before ++ ("FIELD_LIST: [" ++ quotedNames (b.info.fields.map Field.name) ++ "],\n"
        ++ indent depth
        ++ "FIELDS_BY_DISCRIMINANT: [" ++ quotedNames (b.ordered.map Field.name) ++ "],\n")
      ++ between ++ b.viewText name depth .reader ++ b.viewText name depth .builder := by
  have hline : ∃ first last, b.memberLines = first ++
      ("FIELD_LIST: [" ++ quotedNames (b.info.fields.map Field.name) ++ "],") ::
      ("FIELDS_BY_DISCRIMINANT: [" ++ quotedNames (b.ordered.map Field.name) ++ "],") :: last :=
    ⟨b.tagConstants.map _ ++ [_, _], _, by rw [memberLines, List.append_assoc]; rfl⟩
  obtain ⟨first, last, hline⟩ := hline
  have hend : "],\n" = "]," ++ "\n" := rfl
  refine ⟨lines depth first ++ indent depth, lines depth last, ?_⟩
  rw [members, hline, lines_append, lines_cons, lines_cons, hend]
  simp only [String.append_assoc]

theorem lines_of_mem {text : String} {texts : List String} (depth : Nat) (h : text ∈ texts) :
    ∃ before after, lines depth texts = before ++ text ++ after := by
  obtain ⟨first, last, rfl⟩ := List.append_of_mem h
  refine ⟨lines depth first ++ indent depth, "\n" ++ lines depth last, ?_⟩
  rw [lines_append, lines_cons]
  simp only [String.append_assoc]

theorem label_quoted (b : StructBody) (name : String) (depth : Nat) (view : View) :
    ∃ before after, b.viewText name depth view =
      before ++ ("capnp.genhelper.ToStringHelper(this, "
        ++ quote (name ++ "." ++ view.className) ++ ", ") ++ after := by
  have hhead : "this.toString = function() \x7b return capnp.genhelper.ToStringHelper(this, " =
      "this.toString = function() \x7b return " ++ "capnp.genhelper.ToStringHelper(this, " := rfl
  have hline : "this.toString = function() \x7b return capnp.genhelper.ToStringHelper(this, "
      ++ quote (name ++ "." ++ view.className) ++ ", " ++ b.scope
      ++ ".FIELDS_BY_DISCRIMINANT, this.HAS_MEMBER, this.GET_MEMBER"
      ++ (if b.info.hasUnion then ", this.which()" else "") ++ "); \x7d;" ∈
      b.tail view ++ b.tables name view :=
    List.mem_append_right _ (.tail _ (.tail _ (.head _)))
  obtain ⟨before, after, hlines⟩ := lines_of_mem (depth + 1) hline
  refine ⟨indent depth ++ view.className ++ ": function(" ++ view.storage ++ ") \x7b\n"
    ++ lines (depth + 1) (preamble view ++ b.whichLine view)
    ++ String.join (b.bindings.map fun f => f.text view (depth + 1)) ++ before
    ++ "this.toString = function() \x7b return ", b.scope
      ++ ".FIELDS_BY_DISCRIMINANT, this.HAS_MEMBER, this.GET_MEMBER"
      ++ (if b.info.hasUnion then ", this.which()" else "") ++ "); \x7d;" ++ after ++ indent depth
      ++ "\x7d,\n", ?_⟩
  rw [viewText, hlines, hhead]
  simp only [String.append_assoc]

theorem quotesNames (b : StructBody) (name : String) (depth : Nat) : b.QuotesNames name depth where
  lists := by
    obtain ⟨before, between, htext⟩ := b.names_quoted name depth
    refine ⟨before, _, _, between, htext, ?_, ?_⟩
    · rw [denotesAll_quotedNames_iff, List.forall_mem_map]
    · rw [ordered, denotesAll_quotedNames_iff, List.forall_mem_map]
      simp only [(byDiscriminant_perm b.info.fields).mem_iff]
  labels := by
    intro view
    obtain ⟨before, after, htext⟩ := b.label_quoted name depth view
    exact ⟨before, _, after, htext, denotes_label_iff name view⟩

end StructBody

theorem enumMembers_quoted (depth : Nat) (names : List String) :
    ∃ before, enumMembers depth names =
      before ++ ("VALUE_NAMES: [" ++ quotedNames names ++ "],\n") := by
  have hend : "],\n" = "]," ++ "\n" := rfl
  refine ⟨StructBody.lines depth (names.zipIdx.map fun e =>
    upperSnake e.1 ++ ": " ++ decimal e.2 ++ ",") ++ indent depth, ?_⟩
  rw [enumMembers, StructBody.lines_append, StructBody.lines_cons, hend]
  simp [StructBody.lines, String.append_assoc]

theorem DeclaredAs.enumerants_eq {context : FileContext} {path name : String} {n : Node}
    {d : Declaration} {names : List String} (h : DeclaredAs context path name n d)
    (hd : d.body = .enum (some names)) :
    ∃ es, n.enumerants? = some es ∧ es.map Member.name = names := by
  obtain ⟨depth, body, nested, groups, rfl, -, -, u, u', hbody⟩ := h.parts
  have hbody' : body = .enum (some names) := hd
  subst hbody'
  generalize hb : Body.enum (some names) = body at hbody
  cases hbody with
  | enum => exact Option.map_eq_some_iff.1 (Body.enum.inj hb).symm
  | struct | constant | scope | nothing => cases hb

/-- The literal of a text denotes the text with what quoting does not keep read differently: the
text itself just if it keeps all of it. In a generated file this holds of the names of the fields of
every struct, in both lists, of the name that the struct prints itself under, and of the names of the
enumerants of every enum. -/
theorem quoted_names_denoted_iff (g : Graph) (request : RequestedFile) :
    (∀ text, literal? (quote text).toList = some (text.toList.flatMap quotedUnits, []) ∧
      (Denotes (quote text) text ↔ KeptText text)) ∧
    ∀ out, generateFile g request = .ok out →
      ∃ file source, g.find? request.id = some file ∧ sourceFile ⟨g, request⟩ file = .ok source ∧
        out.source = source.text ∧
        (∀ names place entry b children,
          Declaration.At (fun d => d.body.showsChildren = true) source.declarations names
            (.mk place entry (.struct b) children) →
          (∃ n, g.find? n.id = some n ∧ n.struct? = some b.info) ∧
          Within (place.object (Declaration.textList children
            ++ b.members place.name (place.depth + 2))) source.definitions ∧
          b.QuotesNames place.name (place.depth + 2)) ∧
        ∀ names place entry enumerants children,
          Declaration.At (fun d => d.body.showsChildren = true) source.declarations names
            (.mk place entry (.enum (some enumerants)) children) →
          (∃ n es, g.find? n.id = some n ∧ n.enumerants? = some es ∧
            es.map Member.name = enumerants) ∧
          Within (place.object (enumMembers (place.depth + 2) enumerants)) source.definitions ∧
          ∃ before literals, enumMembers (place.depth + 2) enumerants =
              before ++ ("VALUE_NAMES: [" ++ literals ++ "],\n") ∧
            (DenotesAll literals enumerants ↔ ∀ name ∈ enumerants, KeptText name) := by
  constructor
  · intro text
    have hread := literal?_quote text []
    rw [List.append_nil] at hread
    exact ⟨hread, denotes_quote_iff text⟩
  intro out h
  obtain ⟨file, source, hfile, -, hsource, rfl⟩ := generateFile_eq_ok h
  obtain ⟨used, hrun, -⟩ := sourceFile_eq_ok hsource
  refine ⟨file, source, hfile, hsource, rfl, ?_, ?_⟩
  · intro names place entry b children hat
    have htext := hat.text_within
    rw [Declaration.text] at htext
    obtain ⟨outer, n, -, hn, hdecl⟩ := hat.declaredAs (fileDeclarations_declaredAs hrun)
    exact ⟨⟨n, hn, (hdecl.isBound rfl).1⟩, htext, b.quotesNames _ _⟩
  · intro names place entry enumerants children hat
    have htext := hat.text_within
    rw [Declaration.text] at htext
    obtain ⟨outer, n, -, hn, hdecl⟩ := hat.declaredAs (fileDeclarations_declaredAs hrun)
    obtain ⟨es, hes, hnames⟩ := hdecl.enumerants_eq rfl
    obtain ⟨before, hmembers⟩ := enumMembers_quoted (place.depth + 2) enumerants
    exact ⟨⟨n, es, hn, hes, hnames⟩, htext, before, _, hmembers,
      denotesAll_quotedNames_iff enumerants⟩

namespace Signals

/-- A file with one enum. -/
def graph (names : List String) : Graph :=
  ⟨[{ (default : Node) with id := 1, kind := .fileNode, nested := [⟨"Signal", 2⟩] },
    { (default : Node) with
      id := 2
      kind := .enumNode
      scopeId := 1
      enumerants? := some (names.map fun name => ⟨name, 0⟩) }], by simp⟩

end Signals

/-- Quotes, backslashes, controls and letters without a glyph are all kept. -/
theorem quoted_names_denoted_signals :
    (∃ out, generateFile (Signals.graph ["\"stop\"", "new\nline", "\u200b"]) ⟨1, "signals", []⟩ =
      .ok out) ∧
    ∃ before literals, enumMembers 3 ["\"stop\"", "new\nline", "\u200b"] =
        before ++ ("VALUE_NAMES: [" ++ literals ++ "],\n") ∧
      DenotesAll literals ["\"stop\"", "new\nline", "\u200b"] := by
  obtain ⟨-, hall⟩ := quoted_names_denoted_iff
    (Signals.graph ["\"stop\"", "new\nline", "\u200b"]) ⟨1, "signals", []⟩
  obtain ⟨file, source, hfile, hsource, -, -, hall⟩ := hall _ rfl
  cases hfile
  cases hsource
  obtain ⟨-, -, before, literals, hmembers, hdenotes⟩ := hall _ _ _ _ _
    (.top (d := .mk ⟨true, "Signal", 1⟩ ⟨2, []⟩
      (.enum (some ["\"stop\"", "new\nline", "\u200b"])) []) List.mem_cons_self)
  refine ⟨⟨_, rfl⟩, before, literals, hmembers, hdenotes.2 ?_⟩
  intro name hname
  have hkept : (["\"stop\"", "new\nline", "\u200b"].all fun name => name.toList.all isKept) = true :=
    rfl
  exact List.all_eq_true.1 (List.all_eq_true.1 hkept name hname)

/-- The literal of a bell denotes a letter. -/
theorem bell_denotes_letter :
    (∃ out, generateFile (Signals.graph ["\x07"]) ⟨1, "signals", []⟩ = .ok out) ∧
    enumMembers 3 ["\x07"] = "      \x07: 0,\n      VALUE_NAMES: [\"\\a\"],\n" ∧
    quote "\x07" = "\"\\a\"" ∧ Denotes (quote "\x07") "a" ∧ ¬ Denotes (quote "\x07") "\x07" := by
  refine ⟨⟨_, rfl⟩, ?_⟩
  decide +kernel

end SchemaBindings.Bindings
