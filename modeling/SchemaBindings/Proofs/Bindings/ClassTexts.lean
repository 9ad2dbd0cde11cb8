import SchemaBindings.Document.Request
import SchemaBindings.Proofs.Bindings.Resolution

namespace SchemaBindings

open SchemaBindings.Schema

namespace Schema.TypeRef

/-- The kind below all list levels of a type. -/
def innermost : TypeRef → Kind
  | plain kind _ => kind
  | listOf element => element.innermost

end Schema.TypeRef

namespace Bindings

/-- The kinds of elements that a list class is for. -/
def ListClass.elementKinds : ListClass → List Kind
  | primitives => [.void, .bool, .int8, .int16, .int32, .int64, .uint8, .uint16, .uint32, .uint64,
      .float32, .float64]
  | blobs => [.text, .data]
  | enums => [.enum]
  | structs => [.struct, .interface, .anyPointer]
  | lists => [.list]

def primitiveClass : Kind → String
  | .void => "capnp.prim.Void"
  | .bool => "capnp.prim.bool"
  | kind => "capnp.prim." ++ kind.name ++ "_t"

def blobClass : Kind → String
  | .text => "capnp.blob.Text"
  | _ => "capnp.blob.Data"

/-- The class expressions of the runtime, each derived along the type that it is for: the class of a
primitive or a blob, the name of a declaration, or a list class applied to the class expression of
the elements. There is none for an untyped pointer. -/
inductive ClassText (context : FileContext) : TypeRef → String → Prop where
  | primitive {kind : Kind} {typeId : UInt64} (hk : kind ∈ ListClass.primitives.elementKinds) :
      ClassText context (.plain kind typeId) (primitiveClass kind)
  | blob {kind : Kind} {typeId : UInt64} (hk : kind ∈ ListClass.blobs.elementKinds) :
      ClassText context (.plain kind typeId) (blobClass kind)
  | declared {kind : Kind} {typeId : UInt64} {n : Node} {q : QualifiedName}
      (hk : kind = .enum ∨ kind = .struct ∨ kind = .interface)
      (hn : context.graph.find? typeId = some n) (hq : Names context q n) :
      ClassText context (.plain kind typeId) q.text
  | list {element : TypeRef} {of : ListClass} {argument : String}
      (hof : element.kind ∈ of.elementKinds)
      (hargument : ClassText context element argument) (hne : argument ≠ "") :
      ClassText context (.listOf element) (of.text ++ "(" ++ argument ++ ")")

variable {context : FileContext} {used used' : UsedFiles} {t : TypeRef} {text : String}

/-- No kind is listed for two list classes, and the class that is chosen is the one it is listed
for. -/
theorem ListClass.ofElement_eq {of : ListClass} {kind : Kind} (hk : kind ∈ of.elementKinds) :
    ListClass.ofElement kind = of := by
  have hall : ∀ k ∈ of.elementKinds, ListClass.ofElement k = of := by
    cases of <;> decide
  exact hall kind hk

theorem Root.text_ne_empty (r : Root) : r.text ≠ "" := by
  cases r with
  | own => decide
  | foreign fileId | provided fileId =>
    exact fun h => absurd (String.append_eq_empty_iff.1 h).1 (by decide)

theorem QualifiedName.text_ne_empty (q : QualifiedName) : q.text ≠ "" := by
  obtain ⟨root, path⟩ := q
  -- the text only grows from the name of the root on
  have hgrow : ∀ start : String, start ≠ "" →
      path.foldl (fun text name => text ++ "." ++ name) start ≠ "" := by
    induction path with
    | nil => exact fun start h => h
    | cons name path ih => exact fun start h => ih _ (by simp [h])
  exact hgrow _ root.text_ne_empty

theorem primitiveClass_ne_empty (kind : Kind) : primitiveClass kind ≠ "" := by
  unfold primitiveClass
  split <;> simp

theorem blobClass_ne_empty (kind : Kind) : blobClass kind ≠ "" := by
  unfold blobClass
  split <;> simp

namespace ClassText

theorem ne_empty (h : ClassText context t text) : text ≠ "" := by
  cases h with
  | primitive => exact primitiveClass_ne_empty _
  | blob => exact blobClass_ne_empty _
  | declared => exact QualifiedName.text_ne_empty _
  | list => simp

theorem innermost_ne (h : ClassText context t text) : t.innermost ≠ .anyPointer := by
  induction h with
  | primitive hk | blob hk =>
    intro heq
    simp [TypeRef.innermost] at heq
    subst heq
    revert hk
    decide
  | declared hk => rcases hk with rfl | rfl | rfl <;> exact nofun
  | list _ _ _ ih => exact ih

theorem kind_mem (h : ClassText context t text) :
    t.kind ∈ (ListClass.ofElement t.kind).elementKinds := by
  -- some list class is for the kind, and that is the one that is chosen
  suffices h : ∃ of : ListClass, t.kind ∈ of.elementKinds by
    obtain ⟨of, hof⟩ := h
    rwa [ListClass.ofElement_eq hof]
  cases h with
  | primitive hk => exact ⟨.primitives, hk⟩
  | blob hk => exact ⟨.blobs, hk⟩
  | declared hk =>
    rcases hk with rfl | rfl | rfl
    · exact ⟨.enums, List.mem_singleton.2 rfl⟩
    · exact ⟨.structs, List.mem_cons_self⟩
    · exact ⟨.structs, .tail _ List.mem_cons_self⟩
  | list => exact ⟨.lists, List.mem_singleton.2 rfl⟩

end ClassText

theorem typeExpr_classText {e : TypeExpr} (ht : t.innermost ≠ .anyPointer)
    (h : Generation.run (typeExpr t) context used = (.ok e, used')) :
    ClassText context t e.text := by
  induction t generalizing e with
  | plain kind typeId =>
    have hdeclared (hk : kind = .enum ∨ kind = .struct ∨ kind = .interface)
        (h : Generation.run (do return .declared (← qualifiedNameOf typeId)) context used =
          (.ok e, used')) : ClassText context (.plain kind typeId) e.text := by
      obtain ⟨q, hq, rfl⟩ := Generation.run_map_eq_ok_iff.1 h
      obtain ⟨n, mid, hfind, hq⟩ := Generation.run_bind_eq_ok_iff.1 hq
      obtain ⟨hn, rfl⟩ := run_find_eq_ok_iff.1 hfind
      obtain ⟨top, hpath, hroot, -⟩ := run_qualifiedName_eq_ok_iff.1 hq
      exact .declared hk hn ⟨top, hpath, hroot⟩
    cases kind with
    | enum | struct | interface => exact hdeclared (by simp) h
    | list | unlisted => cases h
    | anyPointer => exact absurd rfl ht
    | text | data =>
      obtain rfl := Generation.run_pure_eq_ok h
      exact .blob (by decide)
    | _ =>
      obtain rfl := Generation.run_pure_eq_ok h
      exact .primitive (by decide)
  | listOf element ih =>
    obtain ⟨inner, hinner, rfl⟩ := Generation.run_map_eq_ok_iff.1 h
    have harg : ClassText context element inner.text := ih ht hinner
    exact .list harg.kind_mem harg harg.ne_empty

/-- Below at least one list level, an untyped pointer leaves a list class without argument. -/
theorem typeExpr_unfilled {e : TypeExpr} (ht : t.innermost = .anyPointer)
    (hk : t.kind ≠ .anyPointer)
    (h : Generation.run (typeExpr t) context used = (.ok e, used')) :
    Within "capnp.list.ListOfStructs()" e.text := by
  induction t generalizing e with
  | plain kind typeId => exact absurd ht hk
  | listOf element ih =>
    obtain ⟨inner, hinner, rfl⟩ := Generation.run_map_eq_ok_iff.1 h
    cases element with
    | plain kind typeId =>
      have hkind : kind = .anyPointer := ht
      subst hkind
      obtain rfl := Generation.run_pure_eq_ok hinner
      exact .refl _
    | listOf element => exact (ih ht nofun hinner).right.left

/-- Where a class expression is written for a type other than a bare untyped pointer, it is derived
along the levels of the type just if no untyped pointer lies below them; if one does, some list
class stands in it without an argument. -/
theorem typeExpr_derived_iff (context : FileContext) (t : TypeRef) (e : TypeExpr)
    (used used' : UsedFiles) (hk : t.kind ≠ .anyPointer)
    (h : Generation.run (typeExpr t) context used = (.ok e, used')) :
    (ClassText context t e.text ↔ t.innermost ≠ .anyPointer) ∧
      (t.innermost = .anyPointer → Within "capnp.list.ListOfStructs()" e.text) :=
  ⟨⟨ClassText.innermost_ne, fun ht => typeExpr_classText ht h⟩,
    fun ht => typeExpr_unfilled ht hk h⟩

/-- Lists of lists of the pages of a book, as the readers' file refers to them. -/
theorem typeExpr_derived_iff_pages :
    ∃ e used', Generation.run (typeExpr (.listOf (.listOf (.plain .enum 5))))
        ⟨Library.graph, ⟨1, "", []⟩⟩ [] = (.ok e, used') ∧
      e.text = "capnp.list.ListOfLists(capnp.list.ListOfEnums(import_3.Book.Page))" ∧
      ClassText ⟨Library.graph, ⟨1, "", []⟩⟩ (.listOf (.listOf (.plain .enum 5))) e.text := by
  refine ⟨.list .lists (.list .enums (.declared ⟨.foreign 3, ["Book", "Page"]⟩)), [3], rfl, ?_, ?_⟩
  · decide +kernel
  · exact (typeExpr_derived_iff _ _ _ [] [3] (by decide) rfl).1.2 (by decide)

/-- A list of untyped pointers is an accepted type, and its class expression is a list class that is
applied to nothing. -/
theorem typeExpr_list_untyped :
    (Document.TypeRecord.containing "list" 0 (.leaf "anyPointer" 0)).checked =
        .ok (.listOf (.plain .anyPointer 0)) ∧
      ∃ e, Generation.run (typeExpr (.listOf (.plain .anyPointer 0)))
          ⟨Library.graph, ⟨1, "", []⟩⟩ [] = (.ok e, []) ∧
        e.text = "capnp.list.ListOfStructs()" ∧
        ¬ ClassText ⟨Library.graph, ⟨1, "", []⟩⟩ (.listOf (.plain .anyPointer 0)) e.text := by
  refine ⟨rfl, _, rfl, rfl, fun h => ?_⟩
  exact h.innermost_ne rfl

end Bindings
end SchemaBindings
