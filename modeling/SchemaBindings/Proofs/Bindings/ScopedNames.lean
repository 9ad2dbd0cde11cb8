import SchemaBindings.Proofs.Bindings.Resolution

namespace SchemaBindings

open Relation
open SchemaBindings.Schema

namespace Schema

/-- The first entry of a node with an id has the name. -/
def Node.ListsFirst (n : Node) (id : UInt64) (name : String) : Prop :=
  ∃ before after, n.nested = before ++ ⟨name, id⟩ :: after ∧ ∀ entry ∈ before, entry.id ≠ id

theorem Node.nestedName?_eq_some_iff {n : Node} {id : UInt64} {name : String} :
    n.nestedName? id = some name ↔ n.ListsFirst id name := by
  simp only [nestedName?, Option.map_eq_some_iff, List.find?_eq_some_iff_append, ListsFirst]
  constructor
  · rintro ⟨⟨name, id'⟩, ⟨hid, before, after, hnested, hbefore⟩, rfl⟩
    obtain rfl : id' = id := by simpa using hid
    exact ⟨before, after, hnested, by simpa using hbefore⟩
  · rintro ⟨before, after, hnested, hbefore⟩
    exact ⟨⟨name, id⟩, ⟨by simp, before, after, hnested, by simpa using hbefore⟩, rfl⟩

namespace Graph

/-- The scopes above a node, the innermost first. They end at a node without scope, or at one whose
scope is missing. -/
inductive ScopesAbove (g : Graph) : Node → List Node → Prop where
  | top {n : Node} (h : n.scopeId = 0) : ScopesAbove g n []
  | missing {n : Node} (h : n.scopeId ≠ 0) (hf : g.find? n.scopeId = none) : ScopesAbove g n []
  | up {n scope : Node} {above : List Node} (hs : g.ScopedIn n scope)
      (h : ScopesAbove g scope above) : ScopesAbove g n (scope :: above)

/-- The scope of a node is there and lists the node. -/
def ListedIn (g : Graph) (n scope : Node) : Prop :=
  g.ScopedIn n scope ∧ ∃ entry ∈ scope.nested, entry.id = n.id

/-- The link from a node to its scope is broken, and what is reported for it. -/
inductive BrokenLink (g : Graph) (n : Node) : Failure → Prop where
  | missing (h : n.scopeId ≠ 0) (hf : g.find? n.scopeId = none) :
      BrokenLink g n ((Failure.ofCause (.unknownNode n.scopeId)).within (.scopeOf n.displayName))
  | unlisted {scope : Node} (hs : g.ScopedIn n scope)
      (hl : ∀ entry ∈ scope.nested, entry.id ≠ n.id) :
      BrokenLink g n (.ofCause (.scopeMismatch n.displayName n.id scope.displayName scope.id))

variable {g : Graph} {n scope top : Node} {names : List String} {above above' : List Node}

namespace ScopesAbove

theorem unique (h : g.ScopesAbove n above) (h' : g.ScopesAbove n above') : above = above' := by
  induction h generalizing above' with
  | top h0 =>
    cases h' with
    | top => rfl
    | missing hn => exact absurd h0 hn
    | up hs => exact absurd h0 hs.1
  | missing hn hf =>
    cases h' with
    | top h0 => exact absurd h0 hn
    | missing => rfl
    | up hs => cases hf.symm.trans hs.2
  | up hs _ ih =>
    cases h' with
    | top h0 => exact absurd h0 hs.1
    | missing _ hf => cases hf.symm.trans hs.2
    | up hs' h' =>
      cases hs.2.symm.trans hs'.2
      rw [ih h']

theorem of_mem {m : Node} (h : g.ScopesAbove n above) (hm : m ∈ above) :
    m ∈ g.nodes ∧ ∃ shorter, g.ScopesAbove m shorter ∧ shorter.length < above.length := by
  induction h with
  | top => cases hm
  | missing => cases hm
  | up hs h ih =>
    rcases List.mem_cons.1 hm with rfl | hm
    · exact ⟨mem_of_find? hs.2, _, h, by simp⟩
    · obtain ⟨hmem, shorter, hshorter, hlt⟩ := ih hm
      exact ⟨hmem, shorter, hshorter, hlt.trans (by simp)⟩

theorem nodup (h : g.ScopesAbove n above) : above.Nodup := by
  induction h with
  | top => exact .nil
  | missing => exact .nil
  | up hs h ih =>
    refine List.nodup_cons.2 ⟨fun hmem => ?_, ih⟩
    -- among the scopes above it, the scope would have fewer of them than it has
    obtain ⟨-, shorter, hshorter, hlt⟩ := h.of_mem hmem
    rw [hshorter.unique h] at hlt
    exact lt_irrefl _ hlt

theorem length_lt_depthBound (h : g.ScopesAbove n above) : above.length < g.depthBound := by
  have hsub : above ⊆ g.nodes := fun m hm => (h.of_mem hm).1
  have hle := (h.nodup.subperm hsub).length_le
  unfold depthBound size
  omega

end ScopesAbove

/-- The scopes that give a node its names are all that are above it. -/
theorem ScopePath.scopesAbove (h : g.ScopePath top names n) :
    ∃ above, g.ScopesAbove n above ∧ above.length = names.length ∧
      (n :: above).getLast? = some top := by
  induction h with
  | top h0 => exact ⟨[], .top h0, rfl, rfl⟩
  | nested hs _ _ ih =>
    obtain ⟨above, habove, hlength, hlast⟩ := ih
    exact ⟨_ :: above, .up hs habove, by simp [hlength], by rw [List.getLast?_cons_cons, hlast]⟩

theorem scopeChain_iff_scopePath : g.ScopeChain n ↔ ∃ top names, g.ScopePath top names n := by
  constructor
  · intro h
    induction h with
    | @top n h0 => exact ⟨n, [], .top h0⟩
    | @nested n scope hs hl _ ih =>
      obtain ⟨top, names, hpath⟩ := ih
      obtain ⟨name, hname⟩ : ∃ name, scope.nestedName? n.id = some name := by
        obtain ⟨entry, he, hid⟩ := hl
        rw [← Option.isSome_iff_exists, Node.nestedName?, Option.isSome_map, List.find?_isSome]
        exact ⟨entry, he, by simpa using hid⟩
      exact ⟨top, names ++ [name], .nested hs hname hpath⟩
  · rintro ⟨top, names, h⟩
    induction h with
    | top h0 => exact .top h0
    | nested hs hname _ ih =>
      obtain ⟨entry, he, hid, -⟩ := Node.mem_nested_of_nestedName? hname
      exact .nested hs ⟨entry, he, hid⟩ ih

theorem listedIn_of_scopedName {name : String} (h : n.scopeId ≠ 0)
    (hok : g.scopedName n = .ok (scope, name)) : g.ListedIn n scope := by
  obtain ⟨hs, hname⟩ := scopedName_eq_ok_iff.1 hok
  obtain ⟨entry, he, hid, -⟩ := Node.mem_nested_of_nestedName? hname
  exact ⟨⟨h, hs⟩, entry, he, hid⟩

theorem brokenLink_of_scopedName {failure : Failure} (h : n.scopeId ≠ 0)
    (herror : g.scopedName n = .error failure) : g.BrokenLink n failure := by
  unfold scopedName at herror
  cases hs : g.find? n.scopeId with
  | none =>
    rw [find_of_find?_none hs] at herror
    cases herror
    exact .missing h hs
  | some scope =>
    rw [find_eq_ok_iff.2 hs] at herror
    cases hname : scope.nestedName? n.id with
    | none =>
      simp only [Except.mapError, bind, Except.bind, hname] at herror
      cases herror
      refine .unlisted ⟨h, hs⟩ fun entry he hid => ?_
      rw [Node.nestedName?, Option.map_eq_none_iff] at hname
      simpa [hid] using List.find?_eq_none.1 hname entry he
    | some name => simp [Except.mapError, bind, Except.bind, hname] at herror

end Graph
end Schema

namespace Bindings

variable {α β : Type} {context : FileContext} {used used' : UsedFiles} {n : Node}

/-- Where a step fails, it leaves the files used as they were. -/
def Atomic (context : FileContext) (step : Generation α) : Prop :=
  ∀ used failure used', Generation.run step context used = (.error failure, used') → used' = used

theorem run_bind_eq_error_iff {x : Generation α} {f : α → Generation β} {failure : Failure} :
    Generation.run (x >>= f) context used = (.error failure, used') ↔
      Generation.run x context used = (.error failure, used') ∨
      ∃ a mid, Generation.run x context used = (.ok a, mid) ∧
        Generation.run (f a) context mid = (.error failure, used') := by
  rw [Generation.run_bind]
  cases Generation.run x context used with
  | mk result mid =>
    cases result with
    | ok a => simp
    | error e => simp

namespace Atomic

theorem pure (a : α) : Atomic context (Pure.pure a) := by
  intro used failure used' h
  cases h

theorem fail (cause : Cause) : Atomic context (.fail cause : Generation α) := by
  intro used failure used' h
  cases h
  rfl

theorem map {x : Generation α} (h : Atomic context x) (f : α → β) :
    Atomic context (x >>= fun a => Pure.pure (f a)) := by
  intro used failure used' hrun
  rcases run_bind_eq_error_iff.1 hrun with hx | ⟨a, mid, -, hf⟩
  · exact h used failure used' hx
  · cases hf

/-- A step that first looks something up. -/
theorem after_lookup {x : Generation α} {f : α → Generation β} (y : Except Failure α)
    (hx : ∀ used, Generation.run x context used = (y, used)) (hf : ∀ a, Atomic context (f a)) :
    Atomic context (x >>= f) := by
  intro used failure used' hrun
  rw [Generation.run_bind, hx] at hrun
  cases y with
  | error e =>
    cases hrun
    rfl
  | ok a => exact hf a used failure used' hrun

end Atomic

theorem qualify_atomic (depth : Nat) (n : Node) : Atomic context (qualify depth n) := by
  induction depth generalizing n with
  | zero => exact .fail _
  | succ depth ih =>
    by_cases htop : n.scopeId = 0
    · intro used failure used' h
      rw [run_qualify_top depth htop] at h
      cases h
    · rw [qualify]
      refine .after_lookup (.ok context) (fun _ => Generation.run_read) fun context => ?_
      rw [if_neg (by simp [Node.isTopLevel, htop])]
      exact .after_lookup _ (fun _ => Generation.run_ofExcept _) fun found =>
        (ih found.1).map fun q => q.child found.2

theorem qualifiedName_atomic (n : Node) : Atomic context (qualifiedName n) :=
  .after_lookup (.ok context) (fun _ => Generation.run_read) fun _ => qualify_atomic _ n

/-- Looking up the class of a type is all or nothing, however deep its lists are nested. -/
theorem typeExpr_atomic (type : TypeRef) : Atomic context (typeExpr type) := by
  induction type with
  | plain kind typeId =>
    have hnamed : Atomic context (qualifiedNameOf typeId >>= fun q => pure (TypeExpr.declared q)) :=
      Atomic.map (.after_lookup _ (fun _ => Generation.run_find typeId) qualifiedName_atomic) _
    cases kind with
    | enum | struct | interface => exact hnamed
    | list => exact .fail _
    | unlisted => exact .fail _
    | _ => exact .pure _
  | listOf element ih =>
    rw [typeExpr]
    exact ih.map _

theorem run_qualify_nested_eq_error {depth : Nat} {failure : Failure} (h : n.scopeId ≠ 0)
    (hrun : Generation.run (qualify (depth + 1) n) context used = (.error failure, used')) :
    context.graph.scopedName n = .error failure ∨
      ∃ scope name, context.graph.scopedName n = .ok (scope, name) ∧
        Generation.run (qualify depth scope) context used = (.error failure, used') := by
  have htop : ¬n.isTopLevel = true := by simp [Node.isTopLevel, h]
  rw [qualify, Generation.run_bind, Generation.run_read] at hrun
  dsimp only at hrun
  rw [if_neg htop] at hrun
  rcases run_bind_eq_error_iff.1 hrun with hlink | ⟨⟨scope, name⟩, mid, hlink, hrest⟩
  · rw [Generation.run_ofExcept] at hlink
    exact Or.inl (Prod.mk.inj hlink).1
  · rw [Generation.run_ofExcept] at hlink
    obtain ⟨hok, rfl⟩ := Prod.mk.inj hlink
    rcases run_bind_eq_error_iff.1 hrest with hscope | ⟨q, mid, -, hpure⟩
    · exact Or.inr ⟨scope, name, hok, hscope⟩
    · cases hpure

/-- A name that is not found for want of a link is not found for want of the first one that is
broken, going up. -/
theorem exists_brokenLink {depth : Nat} {above : List Node} {failure : Failure}
    (habove : context.graph.ScopesAbove n above) (hdepth : above.length < depth)
    (hrun : Generation.run (qualify depth n) context used = (.error failure, used')) :
    ∃ m, ReflTransGen context.graph.ListedIn n m ∧ context.graph.BrokenLink m failure := by
  obtain ⟨depth, rfl⟩ := Nat.exists_eq_add_of_lt (Nat.zero_lt_of_lt hdepth)
  rw [Nat.zero_add] at hrun hdepth
  induction habove generalizing depth with
  | top h0 =>
    rw [run_qualify_top depth h0] at hrun
    cases hrun
  | @missing n hn hf =>
    rcases run_qualify_nested_eq_error hn hrun with hlink | ⟨scope, name, hok, -⟩
    · exact ⟨n, .refl, Graph.brokenLink_of_scopedName hn hlink⟩
    · cases hf.symm.trans (Graph.scopedName_eq_ok_iff.1 hok).1
  | @up n scope above hs _ ih =>
    rcases run_qualify_nested_eq_error hs.1 hrun with hlink | ⟨scope', name, hok, hrun⟩
    · exact ⟨n, .refl, Graph.brokenLink_of_scopedName hs.1 hlink⟩
    · have hlisted := Graph.listedIn_of_scopedName hs.1 hok
      cases hs.2.symm.trans hlisted.1.2
      cases depth with
      | zero => simp at hdepth
      | succ depth =>
        obtain ⟨m, hm, hbroken⟩ := ih depth (by simpa using hdepth) hrun
        exact ⟨m, .head hlisted hm, hbroken⟩

theorem run_qualifiedNameOf_used {id file : UInt64} {q : QualifiedName}
    (h : Generation.run (qualifiedNameOf id) context used = (.ok q, used')) :
    file ∈ used' ↔ file ∈ used ∨ file ≠ context.file.id ∧ context.graph.LiesIn id file := by
  obtain ⟨n, mid, hfind, hq⟩ := Generation.run_bind_eq_ok_iff.1 h
  obtain ⟨hn, rfl⟩ := run_find_eq_ok_iff.1 hfind
  obtain ⟨top, hpath, -, rfl⟩ := run_qualifiedName_eq_ok_iff.1 hq
  rw [UsedFiles.mem_after]
  refine or_congr_right ⟨?_, ?_⟩
  · rintro ⟨rfl, hne⟩
    exact ⟨hne, n, top, q.path, hn, hpath, rfl⟩
  · rintro ⟨hne, n', top', names, hn', hpath', rfl⟩
    cases hn.symm.trans hn'
    exact ⟨by rw [(hpath.unique hpath').1], hne⟩

/-- A class that is found adds the files of the declarations in the type to those used. -/
theorem run_typeExpr_used {type : TypeRef} {e : TypeExpr} {file : UInt64}
    (h : Generation.run (typeExpr type) context used = (.ok e, used')) :
    file ∈ used' ↔ file ∈ used ∨
      file ≠ context.file.id ∧ ∃ id ∈ type.references, context.graph.LiesIn id file := by
  induction type generalizing e with
  | plain kind typeId =>
    have hnamed (h : Generation.run (do return .declared (← qualifiedNameOf typeId)) context used =
        (.ok e, used')) : file ∈ used' ↔ file ∈ used ∨
          file ≠ context.file.id ∧ ∃ id ∈ [typeId], context.graph.LiesIn id file := by
      obtain ⟨q, hq, -⟩ := Generation.run_map_eq_ok_iff.1 h
      simpa using run_qualifiedNameOf_used hq
    cases kind with
    | enum | struct | interface => exact hnamed h
    | list | unlisted => simp [typeExpr, runtimeClass?] at h
    | _ =>
      obtain ⟨-, rfl⟩ := Generation.run_pure_eq_ok_iff.1 h
      simp [TypeRef.references]
  | listOf element ih =>
    obtain ⟨inner, hinner, -⟩ := Generation.run_map_eq_ok_iff.1 h
    have hused := ih hinner
    exact hused

theorem QualifiedName.text_eq_join (q : QualifiedName) :
    q.text = q.root.text ++ String.join (q.path.map fun name => "." ++ name) := by
  obtain ⟨root, names⟩ := q
  rw [QualifiedName.text]
  generalize root.text = text
  induction names generalizing text with
  | nil => simp
  | cons name names ih =>
    rw [List.foldl_cons, ih, List.map_cons, String.join_cons]
    simp only [String.append_assoc]

theorem rootOf_text (context : FileContext) (top : Node) :
    (rootOf context top).text =
      if (top.annotationText? namespaceAnnotationId).isSome then "capnp_generated_" ++ idHex top.id
      else if top.id = context.file.id then "module"
      else "import_" ++ idHex top.id := by
  unfold rootOf
  split_ifs <;> rfl

/-- A node below finitely many scopes is named exactly if each scope is there and lists the node
inside it. The name is that of the file at the top and the first names on the way down, and the file
becomes a used one unless it is the one being generated. A name that is not found is reported by the
first broken link going up and leaves the used files as they were. So does a type whose class is not
found, whatever its lists are nested in. -/
theorem qualifiedName_follows_scopes (context : FileContext) (n : Node) (above : List Node)
    (habove : context.graph.ScopesAbove n above) (used : UsedFiles) :
    (context.graph.ScopeChain n → ∃ q top used',
      Generation.run (qualifiedName n) context used = (.ok q, used') ∧
      context.graph.ScopePath top q.path n ∧ (n :: above).getLast? = some top ∧
      q.path.length = above.length ∧
      q.text = (if (top.annotationText? namespaceAnnotationId).isSome then
          "capnp_generated_" ++ idHex top.id
        else if top.id = context.file.id then "module" else "import_" ++ idHex top.id) ++
        String.join (q.path.map fun name => "." ++ name) ∧
      (∀ id, id ∈ used' ↔ id ∈ used ∨ (id = top.id ∧ top.id ≠ context.file.id)) ∧
      (top.id = context.file.id → used' = used)) ∧
    (¬context.graph.ScopeChain n → ∃ failure m,
      Generation.run (qualifiedName n) context used = (.error failure, used) ∧
      ReflTransGen context.graph.ListedIn n m ∧ context.graph.BrokenLink m failure) ∧
    (∀ (scope : Node) (id : UInt64) (name : String), scope.nestedName? id = some name ↔
      scope.ListsFirst id name) ∧
    ∀ type : TypeRef,
      (∀ failure used', Generation.run (typeExpr type) context used = (.error failure, used') →
        used' = used) ∧
      ∀ e used', Generation.run (typeExpr type) context used = (.ok e, used') →
        ∀ file, file ∈ used' ↔ file ∈ used ∨
          (file ≠ context.file.id ∧ ∃ id ∈ type.references, context.graph.LiesIn id file) := by
  refine ⟨fun hchain => ?_, fun hbroken => ?_, fun scope id name => ?_, fun type => ⟨?_, ?_⟩⟩
  · obtain ⟨top, names, hpath⟩ := Graph.scopeChain_iff_scopePath.1 hchain
    obtain ⟨scopes, hscopes, hlength, hlast⟩ := hpath.scopesAbove
    obtain rfl := hscopes.unique habove
    refine ⟨⟨rootOf context top, names⟩, top, UsedFiles.after context top used,
      run_qualifiedName_eq_ok_iff.2 ⟨top, hpath, rfl, rfl⟩, hpath, hlast, hlength.symm, ?_, ?_, ?_⟩
    · rw [QualifiedName.text_eq_join, rootOf_text]
    · intro id
      rw [UsedFiles.mem_after]
      refine or_congr_right (and_congr_right fun hid => ?_)
      rw [hid]
    · intro hown
      rw [UsedFiles.after, if_pos (Or.inl hown)]
  · cases hrun : Generation.run (qualifiedName n) context used with
    | mk result used' =>
      cases result with
      | ok q =>
        obtain ⟨top, hpath, -⟩ := run_qualifiedName_eq_ok_iff.1 hrun
        exact absurd (Graph.scopeChain_iff_scopePath.2 ⟨top, _, hpath⟩) hbroken
      | error failure =>
        obtain rfl := qualifiedName_atomic n _ _ _ hrun
        rw [qualifiedName, Generation.run_bind, Generation.run_read] at hrun
        obtain ⟨m, hm, hlink⟩ := exists_brokenLink habove habove.length_lt_depthBound hrun
        exact ⟨failure, m, rfl, hm, hlink⟩
  · exact Node.nestedName?_eq_some_iff
  · exact typeExpr_atomic type used
  · exact fun e used' h file => run_typeExpr_used h

namespace Library

/-- The books' file does not list the book. -/
def unlistedGraph : Graph :=
  ⟨[readersFile, { booksFile with nested := [] }, book, page], by decide⟩

theorem scopesAbove_page : graph.ScopesAbove page [book, booksFile] :=
  .up ⟨by decide, rfl⟩ (.up ⟨by decide, rfl⟩ (.top rfl))

theorem scopesAbove_page_unlisted :
    unlistedGraph.ScopesAbove page [book, { booksFile with nested := [] }] :=
  .up ⟨by decide, rfl⟩ (.up ⟨by decide, rfl⟩ (.top rfl))

theorem scopePath_page : graph.ScopePath booksFile ["Book", "Page"] page := by
  have hbook : graph.ScopePath booksFile ["Book"] book :=
    .nested ⟨by decide, rfl⟩ rfl (.top rfl)
  exact .nested ⟨by decide, rfl⟩ rfl hbook

theorem not_scopeChain_page : ¬unlistedGraph.ScopeChain page := by
  intro h
  have hpage : unlistedGraph.find? page.scopeId = some book := rfl
  have hbook : unlistedGraph.find? book.scopeId = some { booksFile with nested := [] } := rfl
  obtain ⟨scope, hs, -, h⟩ := (Graph.scopeChain_iff (by decide)).1 h
  cases hpage.symm.trans hs
  obtain ⟨file, hf, ⟨entry, he, -⟩, -⟩ := (Graph.scopeChain_iff (by decide)).1 h
  cases hbook.symm.trans hf
  cases he

end Library

/-- A page is named through its book. Once the file does not list the book, the book's link is the
one reported, and no file becomes used. -/
theorem qualifiedName_follows_scopes_page :
    Library.graph.ScopesAbove Library.page [Library.book, Library.booksFile] ∧
    Library.graph.ScopeChain Library.page ∧
    (∃ q used', Generation.run (qualifiedName Library.page) ⟨Library.graph, ⟨1, "readers", []⟩⟩ [] =
      (.ok q, used') ∧ q.text = "import_3.Book.Page" ∧ 3 ∈ used') ∧
    ¬Library.unlistedGraph.ScopeChain Library.page ∧
    ∃ failure, Generation.run (qualifiedName Library.page)
      ⟨Library.unlistedGraph, ⟨1, "readers", []⟩⟩ [] = (.error failure, []) := by
  have hpath := Library.scopePath_page
  have hchain := Graph.scopeChain_iff_scopePath.2 ⟨_, _, hpath⟩
  refine ⟨Library.scopesAbove_page, hchain, ?_, Library.not_scopeChain_page, ?_⟩
  · obtain ⟨hnamed, -⟩ := qualifiedName_follows_scopes ⟨Library.graph, ⟨1, "readers", []⟩⟩
      Library.page _ Library.scopesAbove_page []
    obtain ⟨q, top, used', hrun, hq, -, -, htext, hused, -⟩ := hnamed hchain
    obtain ⟨rfl, hnames⟩ := hq.unique hpath
    refine ⟨q, used', hrun, ?_, (hused 3).2 (Or.inr ⟨rfl, by decide⟩)⟩
    rw [htext, hnames]
    decide +kernel
  · obtain ⟨-, hfailed, -⟩ := qualifiedName_follows_scopes
      ⟨Library.unlistedGraph, ⟨1, "readers", []⟩⟩ Library.page _
      Library.scopesAbove_page_unlisted []
    obtain ⟨failure, m, hrun, -⟩ := hfailed Library.not_scopeChain_page
    exact ⟨failure, hrun⟩

end Bindings
end SchemaBindings
