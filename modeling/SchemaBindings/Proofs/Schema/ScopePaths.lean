import Mathlib.Data.List.Nodup
import Mathlib.Data.List.Perm.Subperm
import SchemaBindings.Proofs.Schema.References

namespace SchemaBindings.Schema

theorem Node.nestedName?_eq_some {n : Node} {entry : NamedId}
    (hd : (n.nested.map NamedId.id).Nodup) (he : entry ∈ n.nested) :
    n.nestedName? entry.id = some entry.name := by
  have hfind : n.nested.find? (fun m => m.id == entry.id) = some entry := by
    cases hf : n.nested.find? fun m => m.id == entry.id with
    | none =>
      have hne := List.find?_eq_none.1 hf entry he
      simp at hne
    | some m =>
      have hid : m.id = entry.id := by simpa using List.find?_some hf
      rw [List.inj_on_of_nodup_map hd (List.mem_of_find?_eq_some hf) he hid]
  rw [Node.nestedName?, hfind]
  rfl

theorem Node.mem_nested_of_nestedName? {n : Node} {id : UInt64} {name : String}
    (h : n.nestedName? id = some name) : ∃ entry ∈ n.nested, entry.id = id ∧ entry.name = name := by
  obtain ⟨entry, hf, hname⟩ := Option.map_eq_some_iff.1 h
  exact ⟨entry, List.mem_of_find?_eq_some hf, by simpa using List.find?_some hf, hname⟩

namespace Graph

/-- The names that lead from `top`, which has no scope, down to a node. They are found from the node
up: each is the first under which a scope lists the node inside it. -/
inductive ScopePath (g : Graph) (top : Node) : List String → Node → Prop where
  | top (h : top.scopeId = 0) : ScopePath g top [] top
  | nested {n scope : Node} {name : String} {names : List String} (hs : g.ScopedIn n scope)
      (hname : scope.nestedName? n.id = some name) (h : ScopePath g top names scope) :
      ScopePath g top (names ++ [name]) n

/-- The names under which nested entries lead from a file down to a node. -/
inductive NestedPath (g : Graph) (file : Node) : List String → Node → Prop where
  | file : NestedPath g file [] file
  | inside {n m : Node} {names : List String} {entry : NamedId} (h : NestedPath g file names n)
      (he : entry ∈ n.nested) (hm : g.find? entry.id = some m) :
      NestedPath g file (names ++ [entry.name]) m

/-- The nested entries of a node have names and different ids, and the nodes they list have it as
their scope. -/
structure WellNested (g : Graph) (n : Node) : Prop where
  named : ∀ entry ∈ n.nested, entry.name ≠ ""
  distinct : (n.nested.map NamedId.id).Nodup
  scopes : ∀ entry ∈ n.nested, ∀ m, g.find? entry.id = some m → m.scopeId = n.id

instance (g : Graph) (n : Node) : Decidable (g.WellNested n) :=
  decidable_of_iff ((∀ entry ∈ n.nested, entry.name ≠ "") ∧ (n.nested.map NamedId.id).Nodup ∧
      ∀ entry ∈ n.nested, ∀ m ∈ g.find? entry.id, m.scopeId = n.id)
    ⟨fun h => ⟨h.1, h.2.1, h.2.2⟩, fun h => ⟨h.named, h.distinct, h.scopes⟩⟩

variable {g : Graph} {n top top' : Node} {names names' : List String} {id : UInt64}

theorem id_of_find? (h : g.find? id = some n) : n.id = id := by
  simpa using List.find?_some h

theorem find?_self (h : g.find? id = some n) : g.find? n.id = some n := by
  rwa [id_of_find? h]

theorem scopedName_eq_ok_iff {scope : Node} {name : String} :
    g.scopedName n = .ok (scope, name) ↔
      g.find? n.scopeId = some scope ∧ scope.nestedName? n.id = some name := by
  unfold scopedName
  cases hf : g.find? n.scopeId with
  | none => simp [find_of_find?_none hf, Except.mapError, bind, Except.bind]
  | some m =>
    rw [find_eq_ok_iff.2 hf]
    cases hn : m.nestedName? n.id with
    | none =>
      simp only [Except.mapError, bind, Except.bind, hn, Option.some.injEq, reduceCtorEq, false_iff]
      rintro ⟨rfl, h⟩
      cases hn.symm.trans h
    | some name' =>
      simp only [Except.mapError, bind, Except.bind, hn, Except.ok.injEq, Prod.mk.injEq,
        Option.some.injEq]
      constructor
      · rintro ⟨rfl, rfl⟩
        exact ⟨rfl, hn⟩
      · rintro ⟨rfl, h⟩
        exact ⟨rfl, Option.some.inj (hn.symm.trans h)⟩

theorem scopePath_top_iff (h : n.scopeId = 0) :
    g.ScopePath top names n ↔ top = n ∧ names = [] := by
  constructor
  · intro hp
    cases hp with
    | top => exact ⟨rfl, rfl⟩
    | nested hs => exact absurd h hs.1
  · rintro ⟨rfl, rfl⟩
    exact .top h

theorem scopePath_nested_iff (h : n.scopeId ≠ 0) :
    g.ScopePath top names n ↔ ∃ scope name rest, g.scopedName n = .ok (scope, name) ∧
      g.ScopePath top rest scope ∧ names = rest ++ [name] := by
  simp only [scopedName_eq_ok_iff]
  constructor
  · intro hp
    cases hp with
    | top h0 => exact absurd h0 h
    | nested hs hname hp => exact ⟨_, _, _, ⟨hs.2, hname⟩, hp, rfl⟩
  · rintro ⟨scope, name, rest, ⟨hs, hname⟩, hp, rfl⟩
    exact .nested ⟨h, hs⟩ hname hp

namespace ScopePath

theorem unique (h : g.ScopePath top names n) (h' : g.ScopePath top' names' n) :
    top = top' ∧ names = names' := by
  induction h generalizing names' with
  | top h0 =>
    obtain ⟨rfl, rfl⟩ := (scopePath_top_iff h0).1 h'
    exact ⟨rfl, rfl⟩
  | nested hs hname _ ih =>
    cases h' with
    | top h0 => exact absurd h0 hs.1
    | nested hs' hname' h' =>
      cases hs.2.symm.trans hs'.2
      cases hname.symm.trans hname'
      obtain ⟨rfl, rfl⟩ := ih h'
      exact ⟨rfl, rfl⟩

/-- The scopes around a node are all different: each has a shorter path than those inside it. -/
theorem exists_scopes (h : g.ScopePath top names n) :
    ∃ scopes : List Node, scopes.length = names.length ∧ scopes.Nodup ∧
      ∀ m ∈ scopes, m ∈ g.nodes ∧ ∃ shorter, g.ScopePath top shorter m ∧
        shorter.length < names.length := by
  induction h with
  | top h0 => exact ⟨[], rfl, .nil, by simp⟩
  | nested hs hname h ih =>
    rename_i scope name names
    obtain ⟨scopes, hlength, hnodup, hscopes⟩ := ih
    refine ⟨scope :: scopes, by simp [hlength], List.nodup_cons.2 ⟨?_, hnodup⟩, ?_⟩
    · -- among its own scopes, the scope would have a path shorter than its only one
      intro hmem
      obtain ⟨-, shorter, hp, hlt⟩ := hscopes scope hmem
      rw [(hp.unique h).2] at hlt
      exact lt_irrefl _ hlt
    · intro m hm
      rcases List.mem_cons.1 hm with rfl | hm
      · exact ⟨mem_of_find? hs.2, names, h, by simp⟩
      · obtain ⟨hmem, shorter, hp, hlt⟩ := hscopes m hm
        exact ⟨hmem, shorter, hp, by simp; omega⟩

theorem length_lt_depthBound (h : g.ScopePath top names n) : names.length < g.depthBound := by
  obtain ⟨scopes, hlength, hnodup, hscopes⟩ := h.exists_scopes
  have hsub : scopes ⊆ g.nodes := fun m hm => (hscopes m hm).1
  have hle := (hnodup.subperm hsub).length_le
  unfold depthBound size
  omega

end ScopePath

theorem NestedPath.eq_file {file : Node} (h : g.NestedPath file [] n) : n = file := by
  generalize hnames : ([] : List String) = names at h
  cases h with
  | file => rfl
  | inside => simp at hnames

theorem NestedPath.mem {file : Node} (hfile : file ∈ g.nodes) (h : g.NestedPath file names n) :
    n ∈ g.nodes := by
  cases h with
  | file => exact hfile
  | inside _ _ hm => exact mem_of_find? hm

theorem NestedPath.named {file : Node}
    (hnamed : ∀ names m, g.NestedPath file names m → ∀ entry ∈ m.nested, entry.name ≠ "")
    (h : g.NestedPath file names n) : ∀ name ∈ names, name ≠ "" := by
  induction h with
  | file => simp
  | inside h he _ ih =>
    intro name hname
    rcases List.mem_append.1 hname with hname | hname
    · exact ih name hname
    · rw [List.mem_singleton.1 hname]
      exact hnamed _ _ h _ he

/-- Going down nested entries and going up scopes give the same names, where both links agree and
no node with nested entries has the id that stands for no scope. -/
theorem NestedPath.scopePath {file : Node} (hfile : g.find? file.id = some file)
    (htop : file.scopeId = 0) (hnested : ∀ names m, g.NestedPath file names m → g.WellNested m)
    (hids : ∀ names m, g.NestedPath file names m → m.nested ≠ [] → m.id ≠ 0)
    (h : g.NestedPath file names n) : g.find? n.id = some n ∧ g.ScopePath file names n := by
  induction h with
  | file => exact ⟨hfile, .top htop⟩
  | inside h he hm ih =>
    obtain ⟨hfind, hpath⟩ := ih
    have hwell := hnested _ _ h
    have hid := id_of_find? hm
    have hscope := hwell.scopes _ he _ hm
    have hne := hids _ _ h (List.ne_nil_of_mem he)
    refine ⟨by rw [hid]; exact hm, .nested ⟨?_, ?_⟩ ?_ hpath⟩
    · rw [hscope]
      exact hne
    · rw [hscope]
      exact hfind
    · rw [hid]
      exact Node.nestedName?_eq_some hwell.distinct he

theorem ScopePath.nestedPath (hn : g.find? n.id = some n) (h : g.ScopePath top names n) :
    g.find? top.id = some top ∧ g.NestedPath top names n := by
  induction h with
  | top => exact ⟨hn, .file⟩
  | nested hs hname h ih =>
    have hscope := hs.2
    rw [← id_of_find? hs.2] at hscope
    obtain ⟨htop, hpath⟩ := ih hscope
    obtain ⟨entry, he, hid, rfl⟩ := Node.mem_nested_of_nestedName? hname
    rw [← hid] at hn
    exact ⟨htop, .inside hpath he hn⟩

end Graph
end SchemaBindings.Schema
