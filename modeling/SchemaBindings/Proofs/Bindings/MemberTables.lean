import Mathlib.Data.List.Sort
import SchemaBindings.Proofs.Bindings.UnionTags

namespace SchemaBindings.Bindings

open SchemaBindings.Schema SchemaBindings.Text SchemaBindings.Outcome

/-- The fields of a struct in two parts: the members of the union by tag, those with one tag as
declared, and the other fields as declared. -/
structure MembersFirst (fields members others : List Field) : Prop where
  sorted : members.Pairwise fun a b => a.discriminant ≤ b.discriminant
  stable : ∀ tag, members.filter (fun f => f.discriminant == tag) =
    (fields.filter Field.inUnion).filter fun f => f.discriminant == tag
  others_eq : others = fields.filter fun f => !f.inUnion

theorem mem_of_filter_eq {l l' : List Field} {f : Field} (hf : f ∈ l)
    (h : ∀ tag, l.filter (fun f => f.discriminant == tag) =
      l'.filter fun f => f.discriminant == tag) : f ∈ l' := by
  have hfilter : f ∈ l.filter fun g => g.discriminant == f.discriminant :=
    List.mem_filter.2 ⟨hf, beq_self_eq_true _⟩
  rw [h] at hfilter
  exact List.mem_of_mem_filter hfilter

/-- Fields that are sorted by tag are determined by those of each tag. -/
theorem eq_of_sorted_of_filter_eq {l l' : List Field}
    (hl : l.Pairwise fun a b => a.discriminant ≤ b.discriminant)
    (hl' : l'.Pairwise fun a b => a.discriminant ≤ b.discriminant)
    (h : ∀ tag, l.filter (fun f => f.discriminant == tag) =
      l'.filter fun f => f.discriminant == tag) : l = l' := by
  induction l generalizing l' with
  | nil =>
    cases l' with
    | nil => rfl
    | cons f' l' => cases mem_of_filter_eq List.mem_cons_self fun tag => (h tag).symm
  | cons f l ih =>
    cases l' with
    | nil => cases mem_of_filter_eq List.mem_cons_self h
    | cons f' l' =>
      rw [List.pairwise_cons] at hl hl'
      -- Both heads have the least tag, so each is the first field with it.
      have hle : f.discriminant ≤ f'.discriminant := by
        rcases List.mem_cons.1 (mem_of_filter_eq List.mem_cons_self fun tag => (h tag).symm) with
          rfl | hin
        · exact UInt16.le_refl _
        · exact hl.1 f' hin
      have hge : f'.discriminant ≤ f.discriminant := by
        rcases List.mem_cons.1 (mem_of_filter_eq List.mem_cons_self h) with rfl | hin
        · exact UInt16.le_refl _
        · exact hl'.1 f hin
      have htag : f'.discriminant = f.discriminant := UInt16.le_antisymm hge hle
      have hhead := h f.discriminant
      simp only [List.filter_cons, htag, beq_self_eq_true, if_true, List.cons.injEq] at hhead
      obtain ⟨rfl, -⟩ := hhead
      rw [ih hl.2 hl'.2]
      intro tag
      have hboth := h tag
      simp only [List.filter_cons] at hboth
      split_ifs at hboth
      · exact (List.cons.inj hboth).2
      · exact hboth

theorem discriminant_le_trans (a b c : Field) (hab : decide (a.discriminant ≤ b.discriminant) = true)
    (hbc : decide (b.discriminant ≤ c.discriminant) = true) :
    decide (a.discriminant ≤ c.discriminant) = true :=
  decide_eq_true (UInt16.le_trans (of_decide_eq_true hab) (of_decide_eq_true hbc))

theorem discriminant_le_total (a b : Field) :
    (decide (a.discriminant ≤ b.discriminant) || decide (b.discriminant ≤ a.discriminant)) =
      true := by
  rw [Bool.or_eq_true, decide_eq_true_eq, decide_eq_true_eq]
  exact UInt16.le_total _ _

/-- A stable sort leaves the fields of each tag as they are. -/
theorem filter_mergeSort (l : List Field) (tag : UInt16) :
    (l.mergeSort fun a b => a.discriminant ≤ b.discriminant).filter
      (fun f => f.discriminant == tag) = l.filter fun f => f.discriminant == tag := by
  have hequal : (l.filter fun f => f.discriminant == tag).Pairwise fun a b =>
      decide (a.discriminant ≤ b.discriminant) = true := by
    apply List.pairwise_of_forall_mem_list
    intro a ha b hb
    have hatag : a.discriminant = tag := eq_of_beq (List.mem_filter.1 ha).2
    have hbtag : b.discriminant = tag := eq_of_beq (List.mem_filter.1 hb).2
    rw [hatag, hbtag]
    exact decide_eq_true (UInt16.le_refl tag)
  have hsub := (List.sublist_mergeSort discriminant_le_trans discriminant_le_total hequal
    List.filter_sublist).filter fun f => f.discriminant == tag
  rw [List.filter_filter] at hsub
  simp only [Bool.and_self] at hsub
  exact (hsub.eq_of_length (((List.mergeSort_perm l _).filter _).length_eq).symm).symm

/-- The order has each field once. -/
theorem byDiscriminant_perm (fields : List Field) : (byDiscriminant fields).Perm fields :=
  ((List.mergeSort_perm _ _).append_right _).trans (List.filter_append_perm _ _)

theorem byDiscriminant_membersFirst (fields : List Field) :
    MembersFirst fields
      ((fields.filter Field.inUnion).mergeSort fun a b => a.discriminant ≤ b.discriminant)
      (fields.filter fun f => !f.inUnion) where
  sorted := by
    refine (List.pairwise_mergeSort discriminant_le_trans discriminant_le_total _).imp ?_
    intro a b hab
    exact of_decide_eq_true hab
  stable := filter_mergeSort _
  others_eq := rfl

theorem eq_byDiscriminant_iff {fields order : List Field} :
    order = byDiscriminant fields ↔
      ∃ members others, order = members ++ others ∧ MembersFirst fields members others := by
  have hsorted := byDiscriminant_membersFirst fields
  constructor
  · rintro rfl
    exact ⟨_, _, rfl, hsorted⟩
  · rintro ⟨members, others, rfl, h⟩
    have hmembers := eq_of_sorted_of_filter_eq h.sorted hsorted.sorted fun tag =>
      (h.stable tag).trans (hsorted.stable tag).symm
    rw [byDiscriminant, ← hmembers, h.others_eq]

/-- Where the tags count the members, each member stands at its tag. -/
theorem getElem?_byDiscriminant {fields : List Field} {k i : Nat}
    (h : ((fields.filter Field.inUnion).map fun f => f.discriminant.toNat).Perm (List.range k))
    (hi : i < k) :
    ∃ f, (byDiscriminant fields)[i]? = some f ∧ f.inUnion = true ∧ f.discriminant.toNat = i ∧
      ∀ f' ∈ fields, f'.inUnion = true → f'.discriminant.toNat = i → f' = f := by
  have hsorted := (byDiscriminant_membersFirst fields).sorted
  have hperm := List.mergeSort_perm (fields.filter Field.inUnion)
    fun a b => a.discriminant ≤ b.discriminant
  unfold byDiscriminant
  revert hsorted hperm
  generalize (fields.filter Field.inUnion).mergeSort
    (fun a b => a.discriminant ≤ b.discriminant) = members
  intro hsorted hperm
  have hrange : members.map (fun f => f.discriminant.toNat) = List.range k := by
    refine List.Perm.eq_of_pairwise ?_ ?_ List.pairwise_le_range ((hperm.map _).trans h)
    · intro a b _ _ hab hba
      exact Nat.le_antisymm hab hba
    · exact List.pairwise_map.2 (hsorted.imp UInt16.le_iff_toNat_le.1)
  have hlength : members.length = k := by
    simpa using congrArg List.length hrange
  have htag : ∀ (j : Nat) (f : Field), members[j]? = some f → f.discriminant.toNat = j := by
    intro j f hj
    have hjk : j < k := hlength ▸ (List.getElem?_eq_some_iff.1 hj).1
    have hat := congrArg (fun tags => tags[j]?) hrange
    simpa [hj, hjk] using hat
  have hget := List.getElem?_eq_getElem (hlength.symm ▸ hi : i < members.length)
  refine ⟨members[i], ?_, ?_, htag i _ hget, ?_⟩
  · rw [List.getElem?_append_left (hlength.symm ▸ hi), hget]
  · exact (List.mem_filter.1 (hperm.mem_iff.1 (List.getElem_mem _))).2
  · intro f' hf' hin heq
    obtain ⟨j, hj⟩ := List.getElem?_of_mem (hperm.mem_iff.2 (List.mem_filter.2 ⟨hf', hin⟩))
    have hij : j = i := (htag j f' hj).symm.trans heq
    rw [hij, hget] at hj
    exact (Option.some.inj hj).symm

/-- A statement that goes on only if the active tag is a given one. -/
inductive Statement.TestsFor (i : Nat) : Statement → Prop where
  | presence {tag : UInt16} (h : tag.toNat = i) : TestsFor i (.answerFalseUnless tag)
  | read {tag : UInt16} {message : String} (h : tag.toNat = i) : TestsFor i (.failUnless tag message)

theorem Statement.TestsFor.asksTag {i : Nat} {s : Statement} (h : s.TestsFor i) :
    s.asksTag = true := by
  cases h <;> rfl

theorem Statement.TestsFor.text_eq {i : Nat} {s : Statement} (h : s.TestsFor i) (depth : Nat) :
    ∃ action, s.text depth = "if (this.which() !== " ++ decimal i ++ ") " ++ action := by
  cases h with
  | @presence tag htag =>
    have hsplit : ") return false;" = ") " ++ "return false;" := rfl
    refine ⟨"return false;", ?_⟩
    change "if (this.which() !== " ++ decimal tag.toNat ++ ") return false;" = _
    rw [htag, hsplit]
    simp only [String.append_assoc]
  | @read tag message htag =>
    have hsplit : ") throw new Error(" = ") " ++ "throw new Error(" := rfl
    refine ⟨"throw new Error(" ++ quote message ++ ");", ?_⟩
    change "if (this.which() !== " ++ decimal tag.toNat ++ ") throw new Error(" ++ quote message
      ++ ");" = _
    rw [htag, hsplit]
    simp only [String.append_assoc]

theorem UnionTag.guard_testsFor {t : UnionTag} {verb : Verb} {i : Nat}
    (hv : verb.isWriting = false) : (t.guard verb).TestsFor i ↔ t.value.toNat = i := by
  constructor
  · intro h
    cases verb with
    | has | get | disown =>
      cases h
      assumption
    | set | init | adopt => cases hv
  · intro h
    cases verb with
    | has => exact .presence h
    | get | disown => exact .read h
    | set | init | adopt => cases hv

/-- What reads a field tests for the field's tag, and for none outside a union. -/
theorem FieldBindings.For.testsFor_iff {scope : String} {s : StructInfo} {f : Field}
    {fb : FieldBindings} (h : FieldBindings.For scope s f fb) {view : View} {verb : Verb}
    {statements : List Statement} (hm : fb.method? view verb = some statements)
    (hv : verb.isWriting = false) (i : Nat) :
    (∃ statement ∈ statements, statement.TestsFor i) ↔
      f.inUnion = true ∧ f.discriminant.toNat = i := by
  obtain ⟨operation, -, rfl⟩ := Option.map_eq_some_iff.1 hm
  have hown : ∀ statement ∈ operation.statements view, ¬statement.TestsFor i := by
    intro statement hmem htests
    have hasks := htests.asksTag
    rw [Operation.statements_asksTag operation view statement hmem] at hasks
    cases hasks
  cases hin : f.inUnion with
  | true =>
    rw [h.body_eq hin]
    constructor
    · rintro ⟨statement, hmem, htests⟩
      rcases List.mem_cons.1 hmem with rfl | hmem
      · exact ⟨rfl, (UnionTag.guard_testsFor hv).1 htests⟩
      · exact absurd htests (hown _ hmem)
    · rintro ⟨-, htag⟩
      exact ⟨_, List.mem_cons_self, (UnionTag.guard_testsFor hv).2 htag⟩
  | false =>
    have hnone : fb.tag? = none := by
      rw [h.tag_eq, UnionTag.ofField?, hin]
      rfl
    rw [FieldBindings.body, hnone]
    constructor
    · rintro ⟨statement, hmem, htests⟩
      exact absurd htests (hown _ hmem)
    · rintro ⟨hfalse, -⟩
      cases hfalse

/-- What a table of a view lists for a field: the accessor, which the text in front of the table
assigns, or a function of its own where there is none. -/
inductive ListedAs (front : String) (depth : Nat) (view : View) (f : Field) (fb : FieldBindings)
    (verb : Verb) (entry : String) : Prop where
  | accessor {statements : List Statement} (h : fb.method? view verb = some statements)
      (hentry : entry = "this." ++ verb.text ++ titleCase f.name)
      (hdefines : Defines front depth (verb.text ++ titleCase f.name) statements)
  | function {value : String} (h : hasAccessors f = false)
      (hentry : entry = "function() \x7b return " ++ value ++ "; \x7d")

namespace StructBody

/-- The tables of a struct list its fields in one order, and a view has the accessors in its tables
assigned in front of them. -/
structure HasTables (b : StructBody) (order : List Field) (name : String) (depth : Nat) : Prop where
  names : ∃ front between, b.members name depth =
    front ++ ("FIELDS_BY_DISCRIMINANT: [" ++ quotedNames (order.map Field.name) ++ "],\n")
      ++ between ++ b.viewText name depth .reader ++ b.viewText name depth .builder
  accessors : ∀ view, ∃ front back, b.viewText name depth view =
      front ++ ("this.GET_MEMBER = [" ++ String.intercalate ", " (order.map getEntry) ++ "];\n"
        ++ indent (depth + 1)
        ++ "this.HAS_MEMBER = [" ++ String.intercalate ", " (order.map hasEntry) ++ "];\n") ++ back ∧
    ∀ f fb, b.Binds f fb → ListedAs front (depth + 2) view f fb .get (getEntry f) ∧
      ListedAs front (depth + 2) view f fb .has (hasEntry f)

theorem lines_append (depth : Nat) (texts texts' : List String) :
    lines depth (texts ++ texts') = lines depth texts ++ lines depth texts' := by
  rw [lines, List.map_append, String.join_append]
  rfl

theorem lines_cons (depth : Nat) (text : String) (texts : List String) :
    lines depth (text :: texts) = indent depth ++ text ++ "\n" ++ lines depth texts := by
  rw [lines, List.map_cons, String.join_cons]
  rfl

theorem names_listed (b : StructBody) (name : String) (depth : Nat) :
    ∃ front between, b.members name depth =
      front ++ ("FIELDS_BY_DISCRIMINANT: [" ++ quotedNames (b.ordered.map Field.name) ++ "],\n")
        ++ between ++ b.viewText name depth .reader ++ b.viewText name depth .builder := by
  have hline : ∃ before after, b.memberLines = before ++
      ("FIELDS_BY_DISCRIMINANT: [" ++ quotedNames (b.ordered.map Field.name) ++ "],") :: after :=
    ⟨b.tagConstants.map _ ++ [_, _, _], _, by rw [memberLines, List.append_assoc]; rfl⟩
  obtain ⟨before, after, hline⟩ := hline
  have hend : "],\n" = "]," ++ "\n" := rfl
  refine ⟨lines depth before ++ indent depth, lines depth after, ?_⟩
  rw [members, hline, lines_append, lines_cons, hend]
  simp only [String.append_assoc]

/-- A view up to its tables. -/
def untilTables (b : StructBody) (depth : Nat) (view : View) : String :=
  indent depth ++ view.className ++ ": function(" ++ view.storage ++ ") \x7b\n"
    ++ lines (depth + 1) (preamble view ++ b.whichLine view)
    ++ String.join (b.bindings.map fun f => f.text view (depth + 1))
    ++ lines (depth + 1) (b.tail view) ++ indent (depth + 1)

theorem viewText_tables (b : StructBody) (name : String) (depth : Nat) (view : View) :
    ∃ back, b.viewText name depth view = b.untilTables depth view
      ++ ("this.GET_MEMBER = [" ++ String.intercalate ", " (b.ordered.map getEntry) ++ "];\n"
        ++ indent (depth + 1)
        ++ "this.HAS_MEMBER = [" ++ String.intercalate ", " (b.ordered.map hasEntry) ++ "];\n")
      ++ back := by
  have htables : ∃ printer, b.tables name view =
      ["this.GET_MEMBER = [" ++ String.intercalate ", " (b.ordered.map getEntry) ++ "];",
        "this.HAS_MEMBER = [" ++ String.intercalate ", " (b.ordered.map hasEntry) ++ "];",
        printer] := ⟨_, rfl⟩
  obtain ⟨printer, htables⟩ := htables
  have hend : "];\n" = "];" ++ "\n" := rfl
  refine ⟨lines (depth + 1) [printer] ++ indent depth ++ "\x7d,\n", ?_⟩
  rw [viewText, untilTables, htables, lines_append _ (b.tail view), lines_cons _ _ [_, _],
    lines_cons _ _ [_], hend]
  simp only [String.append_assoc]

/-- What the text of a field's bindings assigns is assigned before the tables. -/
theorem untilTables_defines {b : StructBody} {fb : FieldBindings} (hfb : fb ∈ b.bindings)
    {view : View} {depth : Nat} {name : String} {statements : List Statement}
    (h : Defines (fb.text view (depth + 1)) (depth + 2) name statements) :
    Defines (b.untilTables depth view) (depth + 2) name statements := by
  obtain ⟨before, parameters, code, after, htext, hcode⟩ := h
  obtain ⟨l, r, hlr⟩ := List.append_of_mem hfb
  refine ⟨indent depth ++ view.className ++ ": function(" ++ view.storage ++ ") \x7b\n"
    ++ lines (depth + 1) (preamble view ++ b.whichLine view)
    ++ String.join (l.map fun f => f.text view (depth + 1)) ++ before, parameters, code,
    after ++ String.join (r.map fun f => f.text view (depth + 1))
      ++ lines (depth + 1) (b.tail view) ++ indent (depth + 1), ?_, hcode⟩
  rw [untilTables, hlr, List.map_append, List.map_cons, String.join_append, String.join_cons, htext]
  simp only [String.append_assoc]

/-- Where every field has its bindings and, unless it is a capability, its reading accessors, the
tables refer to what is there. -/
theorem IsBound.hasTables {b : StructBody} (h : b.IsBound)
    (hreading : ∀ f fb, b.Binds f fb → hasAccessors f = true → ∀ view,
      (∃ statements, fb.method? view .has = some statements) ∧
        ∃ statements, fb.method? view .get = some statements) (name : String) (depth : Nat) :
    b.HasTables b.ordered name depth where
  names := b.names_listed name depth
  accessors := by
    intro view
    obtain ⟨back, hview⟩ := b.viewText_tables name depth view
    refine ⟨_, back, hview, ?_⟩
    intro f fb hb
    have hname := (h.of_binds hb).2.name_eq
    have hlisted : ∀ verb statements, fb.method? view verb = some statements →
        ListedAs (b.untilTables depth view) (depth + 2) view f fb verb
          ("this." ++ verb.text ++ titleCase f.name) := by
      intro verb statements hm
      have hdefines := untilTables_defines (List.of_mem_zip hb).2
        (FieldBindings.text_defines hm (depth + 1))
      rw [hname] at hdefines
      exact .accessor hm rfl hdefines
    cases haccessors : hasAccessors f with
    | true =>
      obtain ⟨⟨has, hhas⟩, get, hget⟩ := hreading f fb hb haccessors view
      rw [getEntry, hasEntry, if_pos haccessors, if_pos haccessors]
      exact ⟨hlisted .get get hget, hlisted .has has hhas⟩
    | false =>
      have hfalse : ¬hasAccessors f = true := by simp [haccessors]
      rw [getEntry, hasEntry, if_neg hfalse, if_neg hfalse]
      have hget : "function() \x7b return undefined; \x7d" =
          "function() \x7b return " ++ "undefined" ++ "; \x7d" := rfl
      have hhas : "function() \x7b return false; \x7d" =
          "function() \x7b return " ++ "false" ++ "; \x7d" := rfl
      exact ⟨.function haccessors hget, .function haccessors hhas⟩

end StructBody

/-- The tables of a struct put the members of its union first, by tag, and then the other fields.
In every struct that a generated file defines, the names and both views list the fields in this
order, and a table refers to accessors that its view has assigned before. Where the tags count the
members from zero, what stands at a tag is the one member whose accessors test for it. -/
theorem member_tables_aligned :
    (∀ fields : List Field, (byDiscriminant fields).Perm fields ∧
      ∀ order, order = byDiscriminant fields ↔
        ∃ members others, order = members ++ others ∧ MembersFirst fields members others) ∧
    (∀ g request out, generateFile g request = .ok out →
      ∃ file source, g.find? request.id = some file ∧ sourceFile ⟨g, request⟩ file = .ok source ∧
        out.source = source.text ∧
        ∀ names place entry b children,
          Declaration.At (fun d => d.body.showsChildren = true) source.declarations names
            (.mk place entry (.struct b) children) →
          Within (place.object (Declaration.textList children
            ++ b.members place.name (place.depth + 2))) source.definitions ∧
          (∃ n, g.find? n.id = some n ∧ n.struct? = some b.info) ∧
          (∀ f ∈ b.info.fields, ∃ fb, b.Binds f fb) ∧
          b.HasTables (byDiscriminant b.info.fields) place.name (place.depth + 2) ∧
          ∀ k, ((b.info.fields.filter Field.inUnion).map fun f => f.discriminant.toNat).Perm
              (List.range k) →
            ∀ i < k, ∃ f, (byDiscriminant b.info.fields)[i]? = some f ∧ f.inUnion = true ∧
              ∀ f' fb, b.Binds f' fb → ∀ view verb statements, verb.isWriting = false →
                fb.method? view verb = some statements →
                ((∃ statement ∈ statements, statement.TestsFor i) ↔ f' = f)) ∧
    ∀ i (statement : Statement), statement.TestsFor i → ∀ depth, ∃ action,
      statement.text depth = "if (this.which() !== " ++ decimal i ++ ") " ++ action := by
  refine ⟨fun fields => ⟨byDiscriminant_perm fields, fun order => eq_byDiscriminant_iff⟩, ?_,
    fun i statement htests depth => htests.text_eq depth⟩
  intro g request out h
  obtain ⟨file, source, hfile, -, hsource, rfl⟩ := generateFile_eq_ok h
  obtain ⟨used, hrun, -⟩ := sourceFile_eq_ok hsource
  refine ⟨file, source, hfile, hsource, rfl, ?_⟩
  intro names place entry b children hat
  have htext := hat.text_within
  rw [Declaration.text] at htext
  obtain ⟨outer, n, -, hn, hdecl⟩ := hat.declaredAs (fileDeclarations_declaredAs hrun)
  obtain ⟨u, u', hbody⟩ := hdecl.run_structBody rfl
  obtain ⟨hstruct, -, hbound⟩ := hdecl.isBound rfl
  refine ⟨htext, ⟨n, hn, hstruct⟩, fun f hf => hbound.exists_binds hf, ?_, ?_⟩
  · apply hbound.hasTables
    intro f fb hb haccessors view
    obtain ⟨-, v, v', hfield⟩ := (structBody_eq_ok hstruct hbody).2 f fb hb
    exact reading_methods hfield haccessors view
  · intro k hperm i hi
    obtain ⟨f, hget, hin, htag, hunique⟩ := getElem?_byDiscriminant hperm hi
    refine ⟨f, hget, hin, ?_⟩
    intro f' fb hb view verb statements hv hm
    obtain ⟨hf', hfor⟩ := hbound.of_binds hb
    rw [hfor.testsFor_iff hm hv]
    constructor
    · rintro ⟨hin', htag'⟩
      exact hunique f' hf' hin' htag'
    · rintro rfl
      exact ⟨hin, htag⟩

namespace Meters

def level : Field :=
  ⟨"level", 0, 1, .slot ⟨1, .plain .float32 0, .zero .float32, 0⟩⟩

def label : Field :=
  ⟨"label", 1, noDiscriminant, .slot ⟨0, .plain .text 0, .zero .text, 0⟩⟩

def idle : Field :=
  ⟨"idle", 2, 0, .slot ⟨0, .plain .void 0, .zero .void, 0⟩⟩

def link : Field :=
  ⟨"link", 3, 2, .slot ⟨1, .plain .interface 0, .zero .interface, 0⟩⟩

/-- A meter is idle, shows a level or goes by a link. Its fields are not declared in the order of
their tags, and one is outside the union. -/
def info : StructInfo :=
  ⟨1, 2, 7, false, 3, 0, [level, label, idle, link]⟩

def meter : Node :=
  { (default : Node) with
    id := 2
    kind := .structNode
    displayName := "meters.capnp:Meter"
    scopeId := 1
    struct? := some info }

def file : Node :=
  { (default : Node) with
    id := 1
    kind := .fileNode
    displayName := "meters.capnp"
    nested := [⟨"Meter", 2⟩] }

def graph : Graph :=
  ⟨[file, meter], by simp [file, meter]⟩

def requested : RequestedFile :=
  ⟨1, "meters.capnp", []⟩

def levelBindings : FieldBindings :=
  ⟨"module.Meter", "level", some ⟨1, 0⟩,
    dataAccessors ⟨1, .plain .float32 0, .zero .float32, 0⟩⟩

def body : StructBody :=
  ⟨"Meter", info,
    [levelBindings,
      ⟨"module.Meter", "label", none, pointerAccessors .text 0 none⟩,
      ⟨"module.Meter", "idle", some ⟨0, 0⟩, voidAccessors⟩,
      ⟨"module.Meter", "link", some ⟨2, 0⟩, []⟩]⟩

def declared : Declaration :=
  .mk ⟨true, "Meter", 1⟩ (.ofNode meter) (.struct body) []

theorem membersFirst : MembersFirst info.fields [idle, level, link] [label] where
  sorted := by decide
  stable := by
    intro tag
    by_cases hidle : 0 = tag
    · rw [← hidle]
      rfl
    by_cases hlevel : 1 = tag
    · rw [← hlevel]
      rfl
    by_cases hlink : 2 = tag
    · rw [← hlink]
      rfl
    have hmembers : info.fields.filter Field.inUnion = [level, idle, link] := rfl
    simp [hmembers, idle, level, link, hidle, hlevel, hlink]
  others_eq := rfl

end Meters

theorem member_tables_aligned_meter :
    (∃ out, generateFile Meters.graph Meters.requested = .ok out) ∧
    byDiscriminant Meters.info.fields = [Meters.idle, Meters.level, Meters.link, Meters.label] ∧
    Meters.body.HasTables [Meters.idle, Meters.level, Meters.link, Meters.label] "Meter" 3 ∧
    ((Meters.info.fields.filter Field.inUnion).map fun f => f.discriminant.toNat).Perm
      (List.range 3) ∧
    ∃ statements, Meters.levelBindings.method? .builder .get = some statements ∧
      ∃ statement ∈ statements, statement.TestsFor 1 := by
  obtain ⟨horder, hall, -⟩ := member_tables_aligned
  have hmeter := ((horder Meters.info.fields).2 _).2 ⟨_, _, rfl, Meters.membersFirst⟩
  obtain ⟨file, source, hfile, hsource, -, hall⟩ := hall Meters.graph Meters.requested _ rfl
  cases hfile
  cases hsource
  obtain ⟨-, -, -, htables, htests⟩ := hall _ _ _ _ _ (.top (d := Meters.declared) List.mem_cons_self)
  have hperm : ((Meters.info.fields.filter Field.inUnion).map fun f => f.discriminant.toNat).Perm
      (List.range 3) := by decide
  obtain ⟨f, hget, -, htested⟩ := htests 3 hperm 1 (by decide)
  change (byDiscriminant Meters.info.fields)[1]? = some f at hget
  rw [← hmeter] at hget
  obtain rfl := Option.some.inj hget
  refine ⟨⟨_, rfl⟩, hmeter.symm, ?_, hperm, _, rfl, ?_⟩
  · change Meters.body.HasTables (byDiscriminant Meters.info.fields) "Meter" 3 at htables
    rw [← hmeter] at htables
    exact htables
  · exact (htested Meters.level Meters.levelBindings List.mem_cons_self .builder .get _ rfl rfl).2 rfl

end SchemaBindings.Bindings
