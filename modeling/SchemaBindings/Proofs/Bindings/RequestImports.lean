import SchemaBindings.Proofs.Bindings.Locality
import SchemaBindings.Proofs.Bindings.ReachedFiles

namespace SchemaBindings.Bindings

open SchemaBindings.Schema

variable {α β : Type}

/-- A step asks a request for nothing but the id of the file: two requests for the same file get
the same answer and leave the same files used. -/
def AsksIdOnly (step : Generation α) : Prop :=
  ∀ (g : Graph) (file file' : RequestedFile) (used : UsedFiles), file.id = file'.id →
    Generation.run step ⟨g, file⟩ used = Generation.run step ⟨g, file'⟩ used

namespace AsksIdOnly

theorem pure (a : α) : AsksIdOnly (Pure.pure a) := by
  intro g file file' used _
  rfl

theorem fail (cause : Cause) : AsksIdOnly (.fail cause : Generation α) := by
  intro g file file' used _
  rfl

theorem ofExcept (x : Except Failure α) : AsksIdOnly (.ofExcept x) := by
  intro g file file' used _
  rw [Generation.run_ofExcept, Generation.run_ofExcept]

theorem find (id : UInt64) : AsksIdOnly (.find id) := by
  intro g file file' used _
  rw [Generation.run_find, Generation.run_find]

theorem markUsed (id : UInt64) : AsksIdOnly (.markUsed id) := by
  intro g file file' used _
  rfl

theorem bind {x : Generation α} {k : α → Generation β} (hx : AsksIdOnly x)
    (hk : ∀ a, AsksIdOnly (k a)) : AsksIdOnly (x >>= k) := by
  intro g file file' used hid
  rw [Generation.run_bind, Generation.run_bind, hx g file file' used hid]
  cases Generation.run x ⟨g, file'⟩ used with
  | mk answer mid =>
    cases answer with
    | error e => rfl
    | ok a => exact hk a g file file' mid hid

theorem map {x : Generation α} (hx : AsksIdOnly x) (k : α → β) :
    AsksIdOnly (x >>= fun a => Pure.pure (k a)) :=
  hx.bind fun a => .pure (k a)

/-- A step that reads the context must make the same of two requests for one file. -/
theorem read_bind {k : FileContext → Generation β} (hk : ∀ context, AsksIdOnly (k context))
    (hsame : ∀ (g : Graph) (file file' : RequestedFile), file.id = file'.id →
      k ⟨g, file⟩ = k ⟨g, file'⟩) :
    AsksIdOnly (read >>= k) := by
  intro g file file' used hid
  have hfirst : Generation.run (read >>= k) ⟨g, file⟩ used =
      Generation.run (k ⟨g, file⟩) ⟨g, file⟩ used := rfl
  have hsecond : Generation.run (read >>= k) ⟨g, file'⟩ used =
      Generation.run (k ⟨g, file'⟩) ⟨g, file'⟩ used := rfl
  rw [hfirst, hsecond, hsame g file file' hid]
  exact hk _ g file file' used hid

theorem within {x : Generation α} (hx : AsksIdOnly x) (place : Place) :
    AsksIdOnly (.within place x) := by
  intro g file file' used hid
  rw [Generation.run_within, Generation.run_within, hx g file file' used hid]

theorem mapM {k : α → Generation β} {xs : List α} (h : ∀ x ∈ xs, AsksIdOnly (k x)) :
    AsksIdOnly (xs.mapM k) := by
  induction xs with
  | nil =>
    rw [List.mapM_nil]
    exact pure []
  | cons x xs ih =>
    have hhead := h x List.mem_cons_self
    have htail := ih fun y hy => h y (List.mem_cons_of_mem _ hy)
    rw [List.mapM_cons]
    exact hhead.bind fun y => htail.map fun ys => y :: ys

end AsksIdOnly

theorem qualify_asksIdOnly (depth : Nat) (n : Node) : AsksIdOnly (qualify depth n) := by
  -- on the number of scopes that are left
  induction depth generalizing n with
  | zero => exact .fail _
  | succ depth ih =>
    rw [qualify]
    apply AsksIdOnly.read_bind
    · intro context
      by_cases htop : n.isTopLevel = true
      · rw [if_pos htop]
        by_cases hfile : n.id ≠ context.file.id
        · rw [if_pos hfile]
          exact (AsksIdOnly.markUsed n.id).bind fun _ => .pure _
        · rw [if_neg hfile]
          exact .pure _
      · rw [if_neg htop]
        exact (AsksIdOnly.ofExcept _).bind fun found => (ih found.1).map _
    · intro g file file' hid
      have hroot : rootOf ⟨g, file⟩ n = rootOf ⟨g, file'⟩ n := by simp only [rootOf, hid]
      simp only [hid, hroot]

theorem qualifiedName_asksIdOnly (n : Node) : AsksIdOnly (qualifiedName n) :=
  .read_bind (fun _ => qualify_asksIdOnly _ n) fun _ _ _ _ => rfl

theorem qualifiedNameOf_asksIdOnly (id : UInt64) : AsksIdOnly (qualifiedNameOf id) :=
  (AsksIdOnly.find id).bind qualifiedName_asksIdOnly

theorem typeExpr_asksIdOnly (t : TypeRef) : AsksIdOnly (typeExpr t) := by
  induction t with
  | plain kind typeId =>
    cases kind with
    | enum | struct | interface => exact (qualifiedNameOf_asksIdOnly typeId).map _
    | list | unlisted => exact .fail _
    | _ => exact .pure _
  | listOf element ih =>
    rw [typeExpr]
    exact ih.map _

theorem enumLiteral_asksIdOnly (id : UInt64) (ordinal : UInt16) :
    AsksIdOnly (enumLiteral id ordinal) := by
  refine (AsksIdOnly.find id).bind fun m => ?_
  cases (m.enumerants?.getD [])[ordinal.toNat]? with
  | some e => exact (qualifiedName_asksIdOnly m).map _
  | none => exact (qualifiedName_asksIdOnly m).map _

theorem literal_asksIdOnly (type : TypeRef) (v : Value) : AsksIdOnly (literal type v) := by
  unfold literal
  cases type.kind with
  | enum => exact enumLiteral_asksIdOnly _ _
  | text | data | list | struct | interface | anyPointer | unlisted => exact .fail _
  | _ => exact .pure _

theorem constExpr_asksIdOnly (n : Node) : AsksIdOnly (constExpr n) := by
  unfold constExpr
  cases n.const? with
  | none => exact .fail _
  | some c =>
    dsimp only
    cases c.type.kind with
    | struct | list => exact (typeExpr_asksIdOnly c.type).map _
    | text | data | interface | anyPointer => exact .pure _
    | _ => exact (literal_asksIdOnly c.type c.value).map _

theorem slotAccessors_asksIdOnly (nodeId : UInt64) (slot : SlotField) :
    AsksIdOnly (slotAccessors nodeId slot) := by
  unfold slotAccessors
  cases slot.type.kind with
  | struct | list => exact (typeExpr_asksIdOnly slot.type).map _
  | unlisted => exact .fail _
  | _ => exact .pure _

theorem fieldBindings_asksIdOnly (scope : String) (nodeId : UInt64) (s : StructInfo) (f : Field) :
    AsksIdOnly (fieldBindings scope nodeId s f) := by
  refine .within (.map ?_ _) _
  cases f.body with
  | slot slot => exact slotAccessors_asksIdOnly nodeId slot
  | group id =>
    refine (AsksIdOnly.find id).bind fun group => .read_bind (fun context => ?_) ?_
    · exact (AsksIdOnly.ofExcept _).map _
    · intro g file file' _
      rfl

theorem declarationBody_asksIdOnly (path : String) (n : Node) :
    AsksIdOnly (declarationBody path n) := by
  unfold declarationBody
  cases n.kind with
  | structNode =>
    refine AsksIdOnly.map ?_ _
    unfold structBody
    cases n.struct? with
    | none => exact .fail _
    | some s => exact (AsksIdOnly.mapM fun f _ => fieldBindings_asksIdOnly _ _ s f).map _
  | constNode => exact (constExpr_asksIdOnly n).map _
  | _ => exact .pure _

theorem declareNode_asksIdOnly (fuel : Nat) (path name : String) (depth : Nat) (n : Node) :
    AsksIdOnly (declareNode fuel path name depth n) := by
  -- on how deep declarations may still be nested
  induction fuel generalizing path name depth n with
  | zero => exact .fail _
  | succ fuel ih =>
    rw [declareNode]
    split_ifs with hk
    · intro g file file' used _
      rfl
    · refine (AsksIdOnly.mapM fun entry _ => ?_).bind fun nested =>
        (AsksIdOnly.mapM fun group _ => ?_).bind fun groups =>
          ((declarationBody_asksIdOnly _ n).within _).map _
      · exact ((AsksIdOnly.find entry.id).within _).bind fun m => ih _ _ _ m
      · exact ((AsksIdOnly.find group.2).within _).bind fun m => ih _ _ _ m

theorem fileDeclarations_asksIdOnly (file : Node) : AsksIdOnly (fileDeclarations file) := by
  refine .mapM fun entry _ => ((AsksIdOnly.find entry.id).within _).bind fun n => ?_
  exact .read_bind (fun _ => declareNode_asksIdOnly _ _ _ _ n) fun _ _ _ _ => rfl

/-- The second list is the first with further elements of some kind put in anywhere. -/
inductive Inserted (extra : α → Prop) : List α → List α → Prop where
  | nil : Inserted extra [] []
  | keep {x : α} {xs ys : List α} (h : Inserted extra xs ys) : Inserted extra (x :: xs) (x :: ys)
  | add {y : α} {xs ys : List α} (hy : extra y) (h : Inserted extra xs ys) :
      Inserted extra xs (y :: ys)

theorem Inserted.filter_eq {extra : α → Prop} {p : α → Bool} {xs ys : List α}
    (h : Inserted extra xs ys) (hp : ∀ y, extra y → p y = false) : ys.filter p = xs.filter p := by
  induction h with
  | nil => rfl
  | keep _ ih => rw [List.filter_cons, List.filter_cons, ih]
  | add hy _ ih => rw [List.filter_cons, hp _ hy, ih]; rfl

/-- The generated file of a node, given the imports it uses and its declarations. -/
def sourceOf (file : Node) (imports : List NamedId) (ds : List Declaration) : SourceFile :=
  ⟨file.id, file.displayName, file.annotationText? namespaceAnnotationId, imports, ds⟩

theorem sourceFile_of_run {context : FileContext} {file : Node}
    {answer : Except Failure (List Declaration)} {used : UsedFiles}
    (hrun : Generation.run (fileDeclarations file) context [] = (answer, used)) :
    sourceFile context file = answer.map (sourceOf file (usedImports context.file used)) := by
  unfold sourceFile
  rw [hrun]
  rfl

theorem generateFile_of_find {g : Graph} {request : RequestedFile} {file : Node}
    (hfile : g.find? request.id = some file) (hk : file.kind = .fileNode) :
    generateFile g request = (sourceFile ⟨g, request⟩ file).mapError
      (.within (.node file.displayName)) >>= fun source =>
        .ok ⟨file.id, file.displayName, source.text, source.imports⟩ := by
  rw [generateFile, Graph.find_eq_ok_iff.2 hfile]
  simp only [Except.mapError, bind, Except.bind, ne_eq, hk, not_true_eq_false, if_false]
  rfl

/-- Generation never looks at the imports of the request: the declarations and the files used are
the same for all lists of imports, and so is the failure. The files used are the other files that
references below the file lie in; the imports listed as used are those of the request that lead
into them, in its order. Imports of files that are not used make no difference wherever they
stand. -/
theorem imports_are_only_filtered (g : Graph) (id : UInt64) (filename : String) :
    (∀ (file : Node) (imports imports' : List NamedId) (used : UsedFiles),
      Generation.run (fileDeclarations file) ⟨g, ⟨id, filename, imports⟩⟩ used =
        Generation.run (fileDeclarations file) ⟨g, ⟨id, filename, imports'⟩⟩ used) ∧
    ((∃ failure, ∀ imports, generateFile g ⟨id, filename, imports⟩ = .error failure) ∨
      ∃ (file : Node) (ds : List Declaration) (used : UsedFiles), g.find? id = some file ∧
        (∀ imports, Generation.run (fileDeclarations file) ⟨g, ⟨id, filename, imports⟩⟩ [] =
          (.ok ds, used)) ∧
        (∀ f, f ∈ used ↔ f ≠ id ∧ ∃ ref, g.RefersBelow file ref ∧ g.LiesIn ref f) ∧
        (∀ imports, ∃ source, sourceFile ⟨g, ⟨id, filename, imports⟩⟩ file = .ok source ∧
          source.definitions = Declaration.textList ds ∧
          source.schemas = String.join ((Declaration.entriesList ds).map SchemaEntry.text) ∧
          generateFile g ⟨id, filename, imports⟩ =
            .ok ⟨file.id, file.displayName, source.text, imports.filter fun i => i.id ∈ used⟩) ∧
        ∀ imports more, Inserted (fun i : NamedId => i.id ∉ used) imports more →
          generateFile g ⟨id, filename, more⟩ = generateFile g ⟨id, filename, imports⟩) := by
  have hblind : ∀ (file : Node) (imports imports' : List NamedId) (used : UsedFiles),
      Generation.run (fileDeclarations file) ⟨g, ⟨id, filename, imports⟩⟩ used =
        Generation.run (fileDeclarations file) ⟨g, ⟨id, filename, imports'⟩⟩ used :=
    fun file _ _ used => fileDeclarations_asksIdOnly file g _ _ used rfl
  refine ⟨hblind, ?_⟩
  cases hfile : g.find? id with
  | none =>
    refine Or.inl ⟨(Failure.ofCause (.unknownNode id)).within (.requestedFile filename),
      fun imports => ?_⟩
    rw [generateFile, Graph.find_of_find?_none hfile]
    rfl
  | some file =>
    by_cases hk : file.kind = .fileNode
    · cases hrun : Generation.run (fileDeclarations file) ⟨g, ⟨id, filename, []⟩⟩ [] with
      | mk answer used =>
        have hall : ∀ imports, Generation.run (fileDeclarations file)
            ⟨g, ⟨id, filename, imports⟩⟩ [] = (answer, used) :=
          fun imports => (hblind file imports [] []).trans hrun
        have hsource : ∀ imports, sourceFile ⟨g, ⟨id, filename, imports⟩⟩ file =
            answer.map (sourceOf file (imports.filter fun i => i.id ∈ used)) :=
          fun imports => sourceFile_of_run (hall imports)
        have hout : ∀ imports, generateFile g ⟨id, filename, imports⟩ = _ :=
          fun imports => generateFile_of_find hfile hk
        cases answer with
        | error failure =>
          refine Or.inl ⟨failure.within (.node file.displayName), fun imports => ?_⟩
          rw [hout, hsource]
          rfl
        | ok ds =>
          have hused := fileDeclarations_marks hk [] ds used hrun
          refine Or.inr ⟨file, ds, used, rfl, hall, fun f => ?_, fun imports => ?_, ?_⟩
          · rw [hused f]
            simp [FileContext.Reached]
          · refine ⟨_, hsource imports, rfl, rfl, ?_⟩
            rw [hout, hsource]
            rfl
          · intro imports more hmore
            have hfilter := hmore.filter_eq (p := fun i => i.id ∈ used) (by simp)
            rw [hout, hout, hsource, hsource, hfilter]
    · refine Or.inl ⟨.ofCause (.notAFile filename file.kind), fun imports => ?_⟩
      rw [generateFile, Graph.find_eq_ok_iff.2 hfile]
      simp only [Except.mapError, bind, Except.bind, ne_eq, hk, not_false_eq_true, if_true]
      rfl

namespace Ledger

/-- Two imports around the one that is used, of files that the ledger does not lead into. -/
def furtherImports : List NamedId :=
  [⟨"self", 1⟩, ⟨"people", 3⟩, ⟨"places", 8⟩]

end Ledger

/-- The ledger leads into the file of people alone, and lists that one of three imports. -/
theorem imports_are_only_filtered_ledger :
    ∃ out other, generateFile Ledger.graph Ledger.request = .ok out ∧
      out.usedImports = [⟨"people", 3⟩] ∧
      generateFile Ledger.graph ⟨1, "ledger", Ledger.furtherImports⟩ = .ok out ∧
      generateFile Ledger.graph ⟨1, "ledger", []⟩ = .ok other ∧ other.usedImports = [] ∧
      ∃ ref, Ledger.graph.RefersBelow Ledger.ledgerFile ref ∧ Ledger.graph.LiesIn ref 3 := by
  obtain ⟨-, ⟨failure, hfail⟩ | ⟨file, ds, used, hfile, -, hused, hout, hmore⟩⟩ :=
    imports_are_only_filtered Ledger.graph 1 "ledger"
  · cases hfail []
  · cases hfile
    obtain ⟨source, -, -, -, hfurther⟩ := hout Ledger.furtherImports
    have hlisted : Ledger.furtherImports.filter (fun i => i.id ∈ used) = [⟨"people", 3⟩] :=
      congrArg FileOutput.usedImports (Except.ok.inj hfurther).symm
    have hself : (1 : UInt64) ∉ used := fun h => ((hused 1).1 h).1 rfl
    have hplaces : (8 : UInt64) ∉ used := by
      intro h
      have hmem : (⟨"places", 8⟩ : NamedId) ∈ Ledger.furtherImports.filter fun i => i.id ∈ used := by
        simp [Ledger.furtherImports, h]
      rw [hlisted] at hmem
      simp at hmem
    have hpeople : (3 : UInt64) ∈ used := by
      have hmem : (⟨"people", 3⟩ : NamedId) ∈ Ledger.furtherImports.filter fun i => i.id ∈ used := by
        rw [hlisted]
        exact List.mem_cons_self
      simpa using (List.mem_filter.1 hmem).2
    have hinserted : Inserted (fun i : NamedId => i.id ∉ used) Ledger.request.imports
        Ledger.furtherImports := .add hself (.keep (.add hplaces .nil))
    exact ⟨_, _, rfl, rfl, hmore _ _ hinserted, rfl, rfl, ((hused 3).1 hpeople).2⟩

end SchemaBindings.Bindings
