import SchemaBindings.Proofs.Compile.DeliveredFiles
import SchemaBindings.Proofs.Delivery.LexicalPath

namespace SchemaBindings

open SchemaBindings.Schema SchemaBindings.Bindings SchemaBindings.Outcome

namespace Delivery

theorem FileTree.file?_put (t : FileTree) (p q : Path) (content : List UInt8) :
    (t.put p content).file? q = if q = p then some content else t.file? q := by
  have h := Compile.lookup_replaced_or_added t.files p content q
  unfold put file?
  split_ifs at h ⊢ <;> exact h

theorem FileTree.makeDirectory?_eq_some {t t' : FileTree} {p : Path}
    (h : t.makeDirectory? p = some t') :
    t'.files = t.files ∧ ∀ q ∈ t'.made, q ∈ t.made ∨ q ∈ p.lineage := by
  unfold makeDirectory? at h
  split_ifs at h
  cases h
  refine ⟨rfl, fun q hq => ?_⟩
  rcases List.mem_append.1 hq with hq | hq
  · exact Or.inl hq
  · exact Or.inr (List.mem_filter.1 hq).1

theorem FileTree.write?_eq_some {t t' : FileTree} {p : Path} {content : List UInt8}
    (h : t.write? p content = some t') : t' = t.put p content := by
  unfold write? at h
  split_ifs at h
  exact (Option.some.inj h).symm

theorem Path.mem_lineage_parent {p q : Path} (h : q ∈ p.parent.lineage) :
    q.rooted = p.rooted ∧ q.parts <+: p.parts := by
  obtain ⟨n, -, rfl⟩ := List.mem_map.1 h
  exact ⟨rfl, (List.take_prefix n _).trans (List.dropLast_prefix p.parts)⟩

/-- Between two states of a tree, files have changed only where some names lead below a directory,
and directories were made only on the way there. -/
structure TouchesOnly (root : String) (names : List String) (before after : FileTree) : Prop where
  files : ∀ path, after.file? path ≠ before.file? path →
    ∃ name ∈ names, target root name = .ok path
  made : ∀ dir ∈ after.made, dir ∈ before.made ∨ ∃ name ∈ names, ∃ path,
    target root name = .ok path ∧ dir.rooted = path.rooted ∧ dir.parts <+: path.parts

namespace TouchesOnly

variable {root name : String} {names more : List String} {before mid after : FileTree}

theorem refl (tree : FileTree) : TouchesOnly root [] tree tree where
  files _ h := absurd rfl h
  made _ h := Or.inl h

theorem cons (h : TouchesOnly root [name] before mid) (h' : TouchesOnly root more mid after) :
    TouchesOnly root (name :: more) before after where
  files path hpath := by
    by_cases hmid : after.file? path = mid.file? path
    · rw [hmid] at hpath
      obtain ⟨n, hn, ht⟩ := h.files path hpath
      exact ⟨n, List.mem_cons.2 (Or.inl (List.mem_singleton.1 hn)), ht⟩
    · obtain ⟨n, hn, ht⟩ := h'.files path hmid
      exact ⟨n, List.mem_cons_of_mem name hn, ht⟩
  made dir hdir := by
    rcases h'.made dir hdir with hdir | ⟨n, hn, hrest⟩
    · rcases h.made dir hdir with hdir | ⟨n, hn, hrest⟩
      · exact Or.inl hdir
      · exact Or.inr ⟨n, List.mem_cons.2 (Or.inl (List.mem_singleton.1 hn)), hrest⟩
    · exact Or.inr ⟨n, List.mem_cons_of_mem name hn, hrest⟩

end TouchesOnly

/-- A directory takes a file only under a name that it accepts, holds its text at the place of the
name afterwards, and is changed nowhere else. -/
theorem Sink.write_directory_eq_ok {root name data : String} {tree : FileTree}
    {c : Cancellation} {next : Sink} (h : (Sink.directory root tree).write c name data = .ok next) :
    ∃ path after, target root name = .ok path ∧ next = .directory root after ∧
      after.file? path = some data.toUTF8.toList ∧ TouchesOnly root [name] tree after := by
  unfold Sink.write at h
  split_ifs at h
  obtain ⟨path, htarget, h⟩ := bind_eq_ok_iff.1 h
  cases hprepared : tree.makeDirectory? path.parent with
  | none => simp [hprepared] at h
  | some prepared =>
    cases hwritten : prepared.write? path data.toUTF8.toList with
    | none =>
      simp only [hprepared, hwritten] at h
      cases h
    | some written =>
      simp only [hprepared, hwritten] at h
      cases h
      obtain ⟨hfiles, hmade⟩ := FileTree.makeDirectory?_eq_some hprepared
      obtain rfl := FileTree.write?_eq_some hwritten
      refine ⟨path, _, htarget, rfl, by rw [FileTree.file?_put, if_pos rfl], ?_, ?_⟩
      · intro q hq
        rw [FileTree.file?_put] at hq
        split_ifs at hq with heq
        · exact ⟨name, List.mem_singleton_self name, by rw [heq, htarget]⟩
        · rw [FileTree.file?, FileTree.file?, hfiles] at hq
          exact absurd rfl hq
      · intro dir hdir
        have hput : (prepared.put path data.toUTF8.toList).made = prepared.made := by
          unfold FileTree.put
          split_ifs <;> rfl
        rw [hput] at hdir
        rcases hmade dir hdir with hdir | hdir
        · exact Or.inl hdir
        · exact Or.inr ⟨name, List.mem_singleton_self name, path, htarget,
            Path.mem_lineage_parent hdir⟩

end Delivery

namespace Compile

open SchemaBindings.Delivery

variable {c : Cancellation} {sink : Sink} {files : List (String × String)}

/-- What a directory holds after any number of files has been delivered to it. -/
theorem Delivers.directory {root : String} {tree : FileTree} {last : Sink}
    (h : Delivers c (.directory root tree) files last) :
    ∃ after, last = .directory root after ∧
      (∀ file ∈ files, ∃ path, target root file.1 = .ok path) ∧
      TouchesOnly root (files.map Prod.fst) tree after := by
  induction files generalizing c tree with
  | nil => exact ⟨tree, h.eq_of_nil, by simp, .refl tree⟩
  | cons file files ih =>
    cases h with
    | cons hwrite rest =>
      obtain ⟨path, mid, htarget, rfl, -, hmid⟩ := Sink.write_directory_eq_ok hwrite
      obtain ⟨after, hafter, hall, hrest⟩ := ih rest
      refine ⟨after, hafter, ?_, hmid.cons hrest⟩
      intro f hf
      rcases List.mem_cons.1 hf with rfl | hf
      · exact ⟨path, htarget⟩
      · exact hall f hf

/-- Whether it succeeds or fails, a run has delivered some of its files, and reports just these. -/
theorem run_delivers (settings : Settings) (c : Cancellation) (sink : Sink) (request : Request) :
    ∃ files,
      Delivers (c.past request.files.length) sink files (run settings c sink request).sink ∧
      (run settings c sink request).written = files.map Prod.fst ∧
      ∀ file ∈ files, ∃ all, (requestOutputs settings c request).2 = .ok all ∧ file ∈ all := by
  have hnone := requestOutputs_written settings c request
  unfold run
  cases hout : requestOutputs settings c request with
  | mk events result =>
    rw [hout] at hnone
    cases result with
    | error problem => exact ⟨[], .nil _ sink, hnone, by simp⟩
    | ok all =>
      have hwritten : ∀ o : Outcome,
          Outcome.written { o with events := events ++ o.events } = o.written := by
        intro o
        rw [Outcome.written, List.filterMap_append, hnone]
        rfl
      simp only [finish, hwritten]
      rcases deliver_cases (c.past request.files.length) sink all with ⟨hok, hall, hnames⟩ |
        ⟨before, name, source, rest, reason, hfiles, hbefore, -, herror, hnames⟩
      · refine ⟨all, ?_, ?_, fun file hfile => ⟨all, rfl, hfile⟩⟩
        · simpa only [deliverAll, hok] using hall
        · simp only [deliverAll, hok, Outcome.written, List.filterMap_append]
          exact (List.append_nil _).trans hnames
      · refine ⟨before, ?_, ?_, fun file hfile => ⟨all, rfl, ?_⟩⟩
        · simpa only [deliverAll, herror] using hbefore
        · simpa only [deliverAll, herror] using hnames
        · rw [hfiles]
          exact List.mem_append_left _ hfile

theorem requestOutputs_name {settings : Settings} {request : Request} {file : String × String}
    (h : (requestOutputs settings c request).2 = .ok files) (hfile : file ∈ files) :
    ∃ requested ∈ request.files, ∃ n ∈ request.nodes, n.id = requested.id ∧
      file.1 = n.displayName ++ settings.suffix := by
  obtain ⟨-, g, outputs, hg, hgen, rfl⟩ := requestOutputs_eq_ok_iff.1 h
  obtain ⟨output, houtput, rfl⟩ := List.mem_map.1 hfile
  obtain ⟨requested, hrequested, hout⟩ := exists_of_forall₂_right hgen houtput
  obtain ⟨n, source, hn, -, -, rfl⟩ := generateFile_eq_ok hout
  refine ⟨requested, hrequested, n, ?_, Graph.id_of_find? hn, rfl⟩
  rw [← Graph.nodes_of_ofNodes hg]
  exact Graph.mem_of_find? hn

/-- A directory accepts the names that are not empty, not absolute and at no point lead above their
start, and writes the file of such a name where its remaining components lead down from the
directory. A refused name leaves the directory as it was. So whatever a run is asked for, it writes
files inside its directory only, each under the name of a requested file. -/
theorem directory_run_stays_inside (settings : Settings) (c : Cancellation) (root : String)
    (tree : FileTree) (request : Request) :
    (∀ name,
      ("/".intercalate (components name) = name ∧ ∀ part ∈ components name, '/' ∉ part.toList) ∧
      ((∃ path, target root name = .ok path) ↔ name ≠ "" ∧ isAbsolute name = false ∧
        ∀ front, front <+: components name → front.count ".." ≤ front.countP isOrdinary) ∧
      (∀ path, target root name = .ok path →
        path = (Path.ofText root).below (Path.ofText name).parts ∧
        (Path.ofText name).parts = remaining (components name) ∧
        ".." ∉ (Path.ofText name).parts) ∧
      (∀ source next, (Sink.directory root tree).write c name source = .ok next →
        ∃ path after, target root name = .ok path ∧ next = .directory root after ∧
          after.file? path = some source.toUTF8.toList ∧ TouchesOnly root [name] tree after) ∧
      ∀ reason, target root name = .error reason → ∀ source rest,
        (∃ refusal, (Sink.directory root tree).write c name source = .error refusal) ∧
        (deliver c (.directory root tree) ((name, source) :: rest)).sink =
          .directory root tree ∧
        (deliver c (.directory root tree) ((name, source) :: rest)).written = []) ∧
    ∃ after, (run settings c (.directory root tree) request).sink = .directory root after ∧
      TouchesOnly root (run settings c (.directory root tree) request).written tree after ∧
      (∀ path, after.file? path ≠ tree.file? path → path.LiesIn (.ofText root)) ∧
      ∀ name ∈ (run settings c (.directory root tree) request).written,
        (∃ path, target root name = .ok path ∧ path.LiesIn (.ofText root)) ∧
        ∃ requested ∈ request.files, ∃ n ∈ request.nodes, n.id = requested.id ∧
          name = n.displayName ++ settings.suffix := by
  have hordinary : ∀ name path, target root name = .ok path →
      ∀ c ∈ (Path.ofText name).parts, isOrdinary c = true := by
    intro name path h
    rw [(target_eq_below h).2]
    exact isOrdinary_of_mem_remaining _
  refine ⟨fun name => ⟨components_spec name, ?_, ?_, fun _ _ => Sink.write_directory_eq_ok, ?_⟩, ?_⟩
  · simp only [target_eq_ok_iff, exists_and_left, exists_eq', and_true]
    exact isLocal_iff name
  · intro path h
    obtain ⟨hpath, hparts⟩ := target_eq_below h
    refine ⟨hpath, hparts, fun hup => ?_⟩
    have h := hordinary name path h ".." hup
    cases h
  · intro reason h source rest
    have hwrite : ∃ refusal,
        (Sink.directory root tree).write c name source = .error refusal := by
      unfold Sink.write
      split_ifs
      · exact ⟨_, rfl⟩
      · exact ⟨reason, by simp only [h]; rfl⟩
    obtain ⟨refusal, hrefused⟩ := hwrite
    refine ⟨⟨refusal, hrefused⟩, ?_, ?_⟩
    · rw [deliver, hrefused]
    · rw [deliver, hrefused]
      rfl
  · obtain ⟨files, hdelivers, hwritten, hfiles⟩ :=
      run_delivers settings c (.directory root tree) request
    obtain ⟨after, hafter, hall, htouches⟩ := hdelivers.directory
    have hinside : ∀ name path, target root name = .ok path → path.LiesIn (.ofText root) :=
      fun name path h => ⟨_, hordinary name path h, (target_eq_below h).1⟩
    refine ⟨after, hafter, by rw [hwritten]; exact htouches, ?_, ?_⟩
    · intro path hpath
      obtain ⟨name, -, htarget⟩ := htouches.files path hpath
      exact hinside name path htarget
    intro name hname
    rw [hwritten] at hname
    obtain ⟨file, hfile, rfl⟩ := List.mem_map.1 hname
    obtain ⟨path, htarget⟩ := hall file hfile
    obtain ⟨all, hok, hmem⟩ := hfiles file hfile
    exact ⟨⟨path, htarget, hinside file.1 path htarget⟩, requestOutputs_name hok hmem⟩

end Compile
end SchemaBindings
