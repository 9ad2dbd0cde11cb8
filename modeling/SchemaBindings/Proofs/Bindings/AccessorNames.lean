import SchemaBindings.Proofs.Bindings.ObjectKeys

namespace SchemaBindings.Bindings

open SchemaBindings.Schema SchemaBindings.Text SchemaBindings.Outcome

/-- A word of small letters. -/
def InSmallLetters (word : String) : Prop :=
  ∀ c ∈ word.toList, c.isLower = true

theorem Verb.text_injective {v w : Verb} (h : v.text = w.text) : v = w := by
  revert h
  cases v <;> cases w <;> decide

theorem Verb.inSmallLetters_text (v : Verb) : InSmallLetters v.text := by
  cases v <;> exact List.all_eq_true.1 rfl

theorem takeWhile_titleCase (name : String) :
    (titleCase name).toList.takeWhile Char.isLower = [] := by
  unfold titleCase
  split
  · rfl
  · next c cs _ => rw [String.toList_ofList, List.takeWhile_cons, isLower_capital]; rfl

/-- The small letters in front tell where the title-cased name begins. -/
theorem append_titleCase_inj {word word' name name' : String} (hw : InSmallLetters word)
    (hw' : InSmallLetters word') (h : word ++ titleCase name = word' ++ titleCase name') :
    word = word' ∧ titleCase name = titleCase name' := by
  have htake : ∀ {word : String} (name : String), InSmallLetters word →
      (word ++ titleCase name).toList.takeWhile Char.isLower = word.toList := by
    intro word name hword
    rw [String.toList_append, List.takeWhile_append_of_pos hword, takeWhile_titleCase,
      List.append_nil]
  have hword : word = word' := by
    rw [← String.toList_inj, ← htake name hw, ← htake name' hw', h]
  subst hword
  exact ⟨rfl, (String.append_right_inj word).1 h⟩

namespace FieldBindings

/-- The words that the names of a field's accessors in a view begin with. The predicate of a union
member comes first. -/
def accessorWords (b : FieldBindings) (view : View) : List String :=
  if b.accessors.isEmpty then []
  else (if b.tag?.isNone then [] else ["is"]) ++ (b.accessorsOf view).map fun a => a.1.text

/-- The names of a field's accessors in a view. -/
def accessorNames (b : FieldBindings) (view : View) : List String :=
  (b.accessorWords view).map (· ++ titleCase b.name)

theorem inSmallLetters_of_mem {b : FieldBindings} {view : View} {word : String}
    (h : word ∈ b.accessorWords view) : InSmallLetters word := by
  unfold accessorWords at h
  split_ifs at h with hempty htag
  · cases h
  · obtain ⟨a, -, rfl⟩ := List.mem_map.1 h
    exact a.1.inSmallLetters_text
  · rcases List.mem_cons.1 h with rfl | h
    · exact List.all_eq_true.1 rfl
    · obtain ⟨a, -, rfl⟩ := List.mem_map.1 h
      exact a.1.inSmallLetters_text

theorem accessorWords_nodup {b : FieldBindings} (h : (b.accessors.map Prod.fst).Nodup)
    (view : View) : (b.accessorWords view).Nodup := by
  have hsublist : (b.accessorsOf view).Sublist b.accessors := by
    cases view with
    | reader => exact List.filter_sublist
    | builder => exact .refl _
  have hverbs : ((b.accessorsOf view).map fun a => a.1.text).Nodup := by
    have hmap : ((b.accessorsOf view).map fun a => a.1.text) =
        ((b.accessorsOf view).map Prod.fst).map Verb.text := by
      rw [List.map_map]
      rfl
    rw [hmap]
    exact (h.sublist (hsublist.map _)).map fun _ _ => Verb.text_injective
  have his : ∀ v : Verb, v.text ≠ "is" := by
    intro v
    cases v <;> decide
  unfold accessorWords
  split_ifs with hempty htag
  · exact List.nodup_nil
  · exact hverbs
  · refine List.nodup_cons.2 ⟨?_, hverbs⟩
    intro hmem
    obtain ⟨a, -, ha⟩ := List.mem_map.1 hmem
    exact his a.1 ha

theorem accessorNames_nodup {b : FieldBindings} (h : (b.accessors.map Prod.fst).Nodup)
    (view : View) : (b.accessorNames view).Nodup := by
  refine (accessorWords_nodup h view).map ?_
  intro word word' heq
  exact (String.append_left_inj _).1 heq

/-- Fields with different names have no accessor name in common, whatever the accessors do. -/
theorem accessorNames_disjoint {b b' : FieldBindings} (h : startsWithCapital b.name = false)
    (h' : startsWithCapital b'.name = false) (hne : b.name ≠ b'.name) (view : View) :
    List.Disjoint (b.accessorNames view) (b'.accessorNames view) := by
  intro name hname hname'
  obtain ⟨word, hword, rfl⟩ := List.mem_map.1 hname
  obtain ⟨word', hword', heq⟩ := List.mem_map.1 hname'
  have htitle := (append_titleCase_inj (inSmallLetters_of_mem hword')
    (inSmallLetters_of_mem hword) heq).2
  exact hne ((titleCase_inj_of_no_capital h' h).1 htitle).symm

end FieldBindings

/-- A text assigns a function to a name of the view that is being built. -/
def AssignsFunction (depth : Nat) (name text : String) : Prop :=
  ∃ rest, text = indent depth ++ "this." ++ name ++ " = function(" ++ rest

/-- A text is made of such assignments, in the order of their names. -/
def AssignsAll (depth : Nat) (names : List String) (text : String) : Prop :=
  ∃ texts, text = String.join texts ∧ List.Forall₂ (AssignsFunction depth) names texts

theorem AssignsAll.append {depth : Nat} {names names' : List String} {text text' : String}
    (h : AssignsAll depth names text) (h' : AssignsAll depth names' text') :
    AssignsAll depth (names ++ names') (text ++ text') := by
  obtain ⟨texts, rfl, hnames⟩ := h
  obtain ⟨texts', rfl, hnames'⟩ := h'
  exact ⟨texts ++ texts', by rw [String.join_append], List.rel_append hnames hnames'⟩

theorem AssignsAll.join {α : Type} {depth : Nat} {xs : List α} {names : α → List String}
    {text : α → String} (h : ∀ x ∈ xs, AssignsAll depth (names x) (text x)) :
    AssignsAll depth (xs.flatMap names) (String.join (xs.map text)) := by
  induction xs with
  | nil => exact ⟨[], rfl, .nil⟩
  | cons x xs ih =>
    rw [List.forall_mem_cons] at h
    rw [List.flatMap_cons, List.map_cons, String.join_cons]
    exact h.1.append (ih h.2)

theorem FieldBindings.text_assignsAll (b : FieldBindings) (view : View) (depth : Nat) :
    AssignsAll depth (b.accessorNames view) (b.text view depth) := by
  have haccessors : AssignsAll depth
      ((b.accessorsOf view).map fun a => a.1.text ++ titleCase b.name)
      (String.join ((b.accessorsOf view).map fun a => b.accessorText view depth a.1 a.2)) := by
    refine ⟨_, rfl, ?_⟩
    rw [List.forall₂_map_left_iff, List.forall₂_map_right_iff, List.forall₂_same]
    intro a _
    refine ⟨a.2.parameters ++ ") \x7b" ++ a.2.layout depth
      ((b.body view a.1 a.2).map (Statement.text (depth + 1))) ++ "\x7d;\n", ?_⟩
    unfold accessorText
    simp only [String.append_assoc]
  have hwords (words : List String) : (words ++ (b.accessorsOf view).map fun a => a.1.text).map
      (· ++ titleCase b.name) = words.map (· ++ titleCase b.name) ++
        (b.accessorsOf view).map fun a => a.1.text ++ titleCase b.name := by
    rw [List.map_append, List.map_map]
    rfl
  unfold accessorNames accessorWords text predicateText
  split_ifs with hempty htag
  · exact ⟨[], rfl, .nil⟩
  · rw [hwords, String.empty_append]
    exact haccessors
  · rw [hwords]
    have hjoin (text : String) : text = String.join [text] := by
      rw [String.join_cons, String.join_nil, String.append_empty]
    refine AssignsAll.append ⟨[_], hjoin _, .cons ?_ .nil⟩ haccessors
    have hthis : "this.is" = "this." ++ "is" := rfl
    have hfunction : " = function() \x7b return this.which() === " =
        " = function(" ++ ") \x7b return this.which() === " := rfl
    refine ⟨") \x7b return this.which() === " ++ b.scope ++ "." ++ upperSnake b.name
      ++ "; \x7d;\n", ?_⟩
    rw [hthis, hfunction]
    simp only [String.append_assoc]

namespace StructBody

/-- The names of the accessors of all fields in a view, in order. -/
def accessorNames (b : StructBody) (view : View) : List String :=
  b.bindings.flatMap fun fb => fb.accessorNames view

theorem viewText_assignsAll (b : StructBody) (name : String) (depth : Nat) (view : View) :
    ∃ front accessors back, b.viewText name depth view = front ++ accessors ++ back ∧
      AssignsAll (depth + 1) (b.accessorNames view) accessors := by
  refine ⟨indent depth ++ view.className ++ ": function(" ++ view.storage ++ ") \x7b\n"
    ++ lines (depth + 1) (preamble view ++ b.whichLine view), _,
    lines (depth + 1) (b.tail view ++ b.tables name view) ++ indent depth ++ "\x7d,\n", ?_,
    AssignsAll.join fun fb _ => fb.text_assignsAll view (depth + 1)⟩
  unfold viewText
  simp only [String.append_assoc]

theorem IsBound.exists_field {b : StructBody} (h : b.IsBound) {fb : FieldBindings}
    (hfb : fb ∈ b.bindings) : ∃ f, b.Binds f fb := by
  have hlength := h.length_eq
  obtain ⟨i, hi, rfl⟩ := List.getElem_of_mem hfb
  refine ⟨b.info.fields[i], ?_⟩
  rw [StructBody.Binds, List.mem_iff_getElem]
  refine ⟨i, ?_, List.getElem_zip⟩
  rw [List.length_zip]
  omega

theorem IsBound.names_eq {b : StructBody} (h : b.IsBound) :
    b.bindings.map FieldBindings.name = b.info.fields.map Field.name := by
  unfold IsBound at h
  generalize b.info.fields = fields at h ⊢
  generalize b.bindings = bindings at h ⊢
  induction h with
  | nil => rfl
  | cons hfield _ ih => rw [List.map_cons, List.map_cons, hfield.name_eq, ih]

theorem accessorNames_nodup {b : StructBody} (hbound : b.IsBound)
    (hverbs : ∀ fb ∈ b.bindings, (fb.accessors.map Prod.fst).Nodup)
    (hnodup : (b.info.fields.map Field.name).Nodup)
    (hsmall : ∀ f ∈ b.info.fields, startsWithCapital f.name = false) (view : View) :
    (b.accessorNames view).Nodup := by
  have hnames : ∀ fb ∈ b.bindings, startsWithCapital fb.name = false := by
    intro fb hfb
    obtain ⟨f, hf, hfor⟩ := exists_of_forall₂_right hbound hfb
    rw [hfor.name_eq]
    exact hsmall f hf
  rw [← hbound.names_eq, List.nodup_iff_pairwise_ne, List.pairwise_map] at hnodup
  rw [accessorNames, List.nodup_flatMap]
  refine ⟨fun fb hfb => FieldBindings.accessorNames_nodup (hverbs fb hfb) view, ?_⟩
  refine hnodup.imp_of_mem ?_
  intro fb fb' hfb hfb' hne
  exact FieldBindings.accessorNames_disjoint (hnames fb hfb) (hnames fb' hfb') hne view

end StructBody

section Generated

variable {context : FileContext} {used used' : UsedFiles} {nodeId : UInt64}
  {scope path name : String} {n : Node} {s : StructInfo} {f : Field} {fb : FieldBindings} {b : StructBody} {d : Declaration}

theorem fieldBindings_verbs_nodup
    (h : Generation.run (fieldBindings scope nodeId s f) context used = (.ok fb, used')) :
    (fb.accessors.map Prod.fst).Nodup := by
  obtain ⟨accessors, rfl, ⟨slot, u, u', -, hslot⟩ | ⟨id, group, slots, -, -, -, rfl⟩⟩ :=
    fieldBindings_eq_ok h
  · rcases slotAccessors_cases hslot with rfl | ⟨-, rfl⟩ | ⟨-, rfl⟩ | ⟨shape, default?, rfl⟩
    · change [Verb.has, .get, .set].Nodup
      decide
    · change [Verb.has, .get, .set].Nodup
      decide
    · exact List.nodup_nil
    · change [Verb.has, .get, .set, .init, .adopt, .disown].Nodup
      decide
  · change [Verb.has, .get, .init].Nodup
    decide

theorem DeclaredAs.verbs_nodup (h : DeclaredAs context path name n d) (hd : d.body = .struct b) :
    ∀ fb ∈ b.bindings, (fb.accessors.map Prod.fst).Nodup := by
  obtain ⟨u, u', hrun⟩ := h.run_structBody hd
  obtain ⟨hstruct, -, hbound⟩ := h.isBound hd
  intro fb hfb
  obtain ⟨f, hb⟩ := hbound.exists_field hfb
  obtain ⟨-, v, v', hfield⟩ := (structBody_eq_ok hstruct hrun).2 f fb hb
  exact fieldBindings_verbs_nodup hfield

end Generated

/-- Names of members can be read off their constants, and names that begin without a capital off
their title-cased forms. So in a generated file no two members of a union and no two enumerants get
the same constant, and no two accessors of a view the same name. -/
theorem members_keep_names_apart :
    (∀ name other, isMemberName name = true → isMemberName other = true →
      upperSnake name = upperSnake other → name = other) ∧
    (∀ name other, startsWithCapital name = false → startsWithCapital other = false →
      titleCase name = titleCase other → name = other) ∧
    ∀ g request out, generateFile g request = .ok out →
      ∃ file source, g.find? request.id = some file ∧ sourceFile ⟨g, request⟩ file = .ok source ∧
        out.source = source.text ∧
        ∀ names d, Declaration.At (fun d => d.body.showsChildren = true) source.declarations names d →
          Within d.text source.definitions ∧
          (∀ b, d.body = .struct b →
            (∃ n, g.find? n.id = some n ∧ n.struct? = some b.info) ∧
            d.text = d.place.object (Declaration.textList d.children
              ++ b.members d.place.name (d.place.depth + 2)) ∧
            HasKeys ((unionNames b.info).map upperSnake ++ StructBody.commonKeys)
              (b.members d.place.name (d.place.depth + 2)) ∧
            (∀ name depth view, ∃ front accessors back,
              b.viewText name depth view = front ++ accessors ++ back ∧
              AssignsAll (depth + 1) (b.accessorNames view) accessors) ∧
            ((b.info.fields.map Field.name).Nodup →
              ((∀ name ∈ unionNames b.info, isMemberName name = true) →
                ((unionNames b.info).map upperSnake).Nodup) ∧
              ((∀ f ∈ b.info.fields, startsWithCapital f.name = false) →
                ∀ view, (b.accessorNames view).Nodup))) ∧
          ∀ enumerants, d.body = .enum (some enumerants) →
            (∃ members, d.text = d.place.object members ∧ HasKeys (enumKeys enumerants) members) ∧
            (enumerants.Nodup → (∀ name ∈ enumerants, isMemberName name = true) →
              (enumerants.map upperSnake).Nodup) := by
  refine ⟨fun name other hn ho => (upperSnake_inj hn ho).1,
    fun name other hn ho => (titleCase_inj_of_no_capital hn ho).1, ?_⟩
  intro g request out h
  obtain ⟨file, source, hfile, -, hsource, rfl⟩ := generateFile_eq_ok h
  obtain ⟨used, hrun, -⟩ := sourceFile_eq_ok hsource
  refine ⟨file, source, hfile, hsource, rfl, ?_⟩
  intro names d hat
  obtain ⟨outer, n, -, hn, hdecl⟩ := hat.declaredAs (fileDeclarations_declaredAs hrun)
  refine ⟨hat.text_within, ?_, ?_⟩
  · intro b hb
    obtain ⟨hstruct, -, hbound⟩ := hdecl.isBound hb
    refine ⟨⟨n, hn, hstruct⟩, Declaration.text_of_struct hb, b.members_hasKeys _ _,
      b.viewText_assignsAll, ?_⟩
    intro hnodup
    refine ⟨map_upperSnake_nodup (hnodup.sublist (unionNames_sublist _)), ?_⟩
    exact StructBody.accessorNames_nodup hbound (hdecl.verbs_nodup hb) hnodup
  · intro enumerants hb
    exact ⟨(hdecl.enum_hasKeys hb).2, map_upperSnake_nodup⟩

/-- A shelf with an optional group in it: the predicate of the group is no accessor of another
field. Words that differ in a capital only have constants of their own. -/
theorem members_keep_names_apart_shelf :
    upperSnake "inStock" ≠ upperSnake "instock" ∧ titleCase "éTage" ≠ titleCase "étage" ∧
    ∃ out source d b, generateFile (Shelves.graph "Material") Shelves.requested = .ok out ∧
      sourceFile ⟨Shelves.graph "Material", Shelves.requested⟩ Shelves.file = .ok source ∧
      Declaration.At (fun d => d.body.showsChildren = true) source.declarations ["Shelf"] d ∧
      d.body = .struct b ∧ b.accessorNames .reader =
        ["hasLabel", "getLabel", "isEmpty", "hasEmpty", "getEmpty", "isBooks", "hasBooks",
          "getBooks"] ∧
      (b.accessorNames .builder).Nodup ∧ ((unionNames b.info).map upperSnake).Nodup := by
  obtain ⟨hupper, htitle, hfiles⟩ := members_keep_names_apart
  refine ⟨fun h => absurd (hupper _ _ (by decide) (by decide) h) (by decide),
    fun h => absurd (htitle _ _ (by decide) (by decide) h) (by decide), ?_⟩
  obtain ⟨file, source, hfile, hsource, -, hall⟩ :=
    hfiles (Shelves.graph "Material") Shelves.requested _ rfl
  cases hfile
  have hat : ∃ d b, Declaration.At (fun d => d.body.showsChildren = true) source.declarations
      ["Shelf"] d ∧ d.body = .struct b ∧ b.info = Shelves.info ∧ b.accessorNames .reader =
        ["hasLabel", "getLabel", "isEmpty", "hasEmpty", "getEmpty", "isBooks", "hasBooks",
          "getBooks"] := by
    cases hsource
    exact ⟨_, _, .top List.mem_cons_self, rfl, rfl, rfl⟩
  obtain ⟨d, b, hat, hb, hinfo, hnames⟩ := hat
  obtain ⟨-, hstruct, -⟩ := hall ["Shelf"] d hat
  obtain ⟨-, -, -, -, hdistinct⟩ := hstruct b hb
  rw [hinfo] at hdistinct
  obtain ⟨hconstants, haccessors⟩ := hdistinct (by decide)
  rw [← hinfo] at hconstants
  exact ⟨_, source, d, b, rfl, hsource, hat, hb, hnames, haccessors (by decide) .builder,
    hconstants (by rw [hinfo]; decide)⟩

end SchemaBindings.Bindings
