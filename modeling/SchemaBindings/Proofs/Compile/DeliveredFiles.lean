import SchemaBindings.Proofs.Bindings.Declaring
import SchemaBindings.Proofs.Compile.FailedRun

namespace SchemaBindings.Compile

open SchemaBindings.Schema SchemaBindings.Bindings SchemaBindings.Delivery SchemaBindings.Outcome

section Lookup

variable {α β : Type} [BEq α] [LawfulBEq α] [DecidableEq α]

theorem lookup_replaced (entries : List (α × β)) (name : α) (data : β) (key : α) :
    (entries.map fun f => if f.1 = name then (name, data) else f).lookup key =
      (entries.lookup key).map fun kept => if key = name then data else kept := by
  induction entries with
  | nil => rfl
  | cons entry entries ih =>
    obtain ⟨first, kept⟩ := entry
    by_cases hname : first = name
    · subst hname
      by_cases hkey : key = first
      · simp [hkey]
      · have hne : (key == first) = false := beq_false_of_ne hkey
        simp only [List.map_cons, ↓reduceIte, List.lookup_cons, hne, ih]
    · by_cases hkey : key = first
      · subst hkey
        simp [hname]
      · have hne : (key == first) = false := beq_false_of_ne hkey
        simp only [List.map_cons, if_neg hname, List.lookup_cons, hne, ih]

/-- What is put under a name, in place of what was there, is found there; every other name keeps
what it had. -/
theorem lookup_replaced_or_added (entries : List (α × β)) (name : α) (data : β) (key : α) :
    (if (entries.lookup name).isSome then
        entries.map fun f => if f.1 = name then (name, data) else f
      else entries ++ [(name, data)]).lookup key =
      if key = name then some data else entries.lookup key := by
  by_cases hkey : key = name
  · subst hkey
    cases hold : entries.lookup key with
    | none => simp [hold, List.lookup_append]
    | some old => simp [hold, lookup_replaced]
  · have hne : (key == name) = false := beq_false_of_ne hkey
    split_ifs
    · simp [lookup_replaced, hkey]
    · simp [List.lookup_append, List.lookup_cons, hne]

end Lookup

theorem lookup_putNamed (files : List (String × String)) (name data key : String) :
    (putNamed files name data).lookup key =
      if key = name then some data else files.lookup key :=
  lookup_replaced_or_added files name data key

variable {c : Cancellation} {sink : Sink} {files : List (String × String)}

/-- What is in memory after a delivery: of the files with one name the last, and what was there
before under all other names. -/
theorem Delivers.lookup {held : List (String × String)} {last : Sink}
    (h : Delivers c (.memory held) files last) (name : String) :
    last.file? name = (files.reverse.lookup name).or (held.lookup name) := by
  induction files generalizing c held with
  | nil =>
    rw [h.eq_of_nil]
    rfl
  | cons file files ih =>
    obtain ⟨written, source⟩ := file
    cases h with
    | cons hwrite rest =>
      rw [Sink.write_of_not_isDue (Sink.isDue_of_write hwrite), Sink.write_memory] at hwrite
      cases hwrite
      rw [ih rest, lookup_putNamed, List.reverse_cons, List.lookup_append, Option.or_assoc]
      congr 1
      by_cases hname : name = written
      · simp [hname]
      · have hne : (name == written) = false := beq_false_of_ne hname
        simp [hname, List.lookup_cons, hne]

/-- A run that succeeds has had all its files, and the sink has taken them one after the other. -/
theorem run_eq_ok {settings : Settings} {request : Request}
    (h : (run settings c sink request).result = .ok ()) :
    ∃ files, (requestOutputs settings c request).2 = .ok files ∧
      Delivers (c.past request.files.length) sink files (run settings c sink request).sink := by
  unfold run at h ⊢
  cases hout : requestOutputs settings c request with
  | mk events result =>
    rw [hout] at h
    cases result with
    | error problem => cases h
    | ok files =>
      refine ⟨files, rfl, ?_⟩
      simp only [finish, deliverAll] at h ⊢
      rcases deliver_cases (c.past request.files.length) sink files with ⟨hok, hall, -⟩ |
        ⟨_, _, _, _, _, -, -, -, herror, -⟩
      · simp only [hok]
        exact hall
      · simp only [herror] at h
        cases h

theorem delivered_mem {suffix name source : String} {outputs : List FileOutput} :
    (name ++ suffix, source) ∈ (outputs.map (delivered suffix)).reverse ↔
      ∃ output ∈ outputs, output.filename = name ∧ output.source = source := by
  simp [delivered, String.append_left_inj]

/-- A run into memory that succeeds leaves, under each name, the last of the files that were
generated for it. So every requested file is there afterwards exactly when those that share a name
have the same text. -/
theorem memory_keeps_last_of_name (settings : Settings) (c : Cancellation)
    (held : List (String × String)) (request : Request)
    (h : (run settings c (.memory held) request).result = .ok ()) :
    ∃ g outputs, Graph.ofNodes request.nodes = .ok g ∧
      List.Forall₂ (fun file output => generateFile g file = .ok output ∧
        ∃ n, g.find? file.id = some n ∧ output.filename = n.displayName) request.files outputs ∧
      (∀ name, (run settings c (.memory held) request).sink.file? name =
        ((outputs.map (delivered settings.suffix)).reverse.lookup name).or (held.lookup name)) ∧
      ((∀ output ∈ outputs, (run settings c (.memory held) request).sink.file?
          (output.filename ++ settings.suffix) = some output.source) ↔
        ∀ a ∈ outputs, ∀ b ∈ outputs, a.filename = b.filename → a.source = b.source) := by
  obtain ⟨files, hfiles, hall⟩ := run_eq_ok h
  obtain ⟨-, g, outputs, hg, hgen, rfl⟩ := requestOutputs_eq_ok_iff.1 hfiles
  have hfile := hall.lookup
  refine ⟨g, outputs, hg, ?_, hfile, ?_⟩
  · refine hgen.imp ?_
    intro file output hout
    obtain ⟨n, _, hn, -, -, hname⟩ := generateFile_eq_ok hout
    exact ⟨hout, n, hn, by rw [hname]⟩
  · constructor
    · intro hkept a ha b hb hsame
      have hkept_a := hkept a ha
      rw [hsame, hkept b hb] at hkept_a
      exact (Option.some.inj hkept_a).symm
    · intro hsame output hout
      have hmem : (output.filename ++ settings.suffix, output.source) ∈
          (outputs.map (delivered settings.suffix)).reverse :=
        delivered_mem.2 ⟨output, hout, rfl, rfl⟩
      obtain ⟨found, hfound, hlast⟩ := exists_lookup_of_mem hmem
      obtain ⟨other, hother, hname, hsource⟩ := delivered_mem.1 hlast
      have heq : found = output.source := by
        rw [← hsource]
        exact hsame other hother output hout hname
      rw [hfile, hfound, heq, Option.some_or]

namespace Books

def novels : RequestedFile := ⟨1, "novels", []⟩

def poems : RequestedFile := ⟨2, "poems", []⟩

/-- Two files with names of their own. -/
def apart : Request :=
  ⟨[file 1 "novels", file 2 "poems"], [novels, poems]⟩

/-- Two files whose nodes have the same name. -/
def together : Request :=
  ⟨[file 1 "books", file 2 "books"], [novels, poems]⟩

end Books

/-- Both files are in memory, each under its name. -/
theorem memory_keeps_last_of_name_apart :
    ∃ g first second, Graph.ofNodes Books.apart.nodes = .ok g ∧
      generateFile g Books.novels = .ok first ∧ generateFile g Books.poems = .ok second ∧
      (run .standard .never (.memory []) Books.apart).result = .ok () ∧
      (run .standard .never (.memory []) Books.apart).sink.file? "novels.js" = some first.source ∧
      (run .standard .never (.memory []) Books.apart).sink.file? "poems.js" =
        some second.source := by
  have hrun : (run .standard .never (.memory []) Books.apart).result = .ok () := rfl
  obtain ⟨g, outputs, hg, hgen, hfile, -⟩ := memory_keeps_last_of_name _ _ _ _ hrun
  cases hg
  rcases hgen with _ | ⟨⟨hfirst, -⟩, _ | ⟨⟨hsecond, -⟩, _ | _⟩⟩
  cases hfirst
  cases hsecond
  refine ⟨_, _, _, rfl, rfl, rfl, hrun, ?_, ?_⟩
  · rw [hfile]
    rfl
  · rw [hfile]
    rfl

/-- The run succeeds, but of two files with one name only the second is there. -/
theorem memory_loses_file_of_same_name :
    (run .standard .never (.memory []) Books.together).result = .ok () ∧
    ∃ g first second, Graph.ofNodes Books.together.nodes = .ok g ∧
      generateFile g Books.novels = .ok first ∧ generateFile g Books.poems = .ok second ∧
      first.filename = "books" ∧
      (run .standard .never (.memory []) Books.together).sink.file? "books.js" =
        some second.source ∧
      second.source ≠ first.source := by
  refine ⟨rfl, _, _, _, rfl, rfl, rfl, rfl, rfl, ?_⟩
  decide

end SchemaBindings.Compile
