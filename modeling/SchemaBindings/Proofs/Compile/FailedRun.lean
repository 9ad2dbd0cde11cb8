import Mathlib.Data.List.Basic
import SchemaBindings.Compile.Run
import SchemaBindings.Proofs.Outcome

namespace SchemaBindings

open SchemaBindings.Schema SchemaBindings.Bindings SchemaBindings.Delivery SchemaBindings.Outcome

namespace Delivery

namespace Cancellation

/-- The first `n` that ask are told to go on. -/
def Lasts : Cancellation → Nat → Prop
  | never, _ => True
  | after asked, n => n ≤ asked

@[simp] theorem past_zero (c : Cancellation) : c.past 0 = c := by
  cases c <;> rfl

theorem past_past (c : Cancellation) (m n : Nat) : (c.past m).past n = c.past (m + n) := by
  cases c with
  | never => rfl
  | after asked => exact congrArg after (Nat.sub_sub asked m n)

theorem lasts_zero (c : Cancellation) : c.Lasts 0 := by
  cases c with
  | never => trivial
  | after asked => exact Nat.zero_le asked

theorem lasts_succ {c : Cancellation} {n : Nat} :
    c.Lasts (n + 1) ↔ c.isDue = false ∧ (c.past 1).Lasts n := by
  cases c with
  | never => exact iff_of_true trivial ⟨rfl, trivial⟩
  | after asked =>
    simp only [Lasts, isDue, past, beq_eq_false_iff_ne]
    omega

theorem eq_after_of_isDue {c : Cancellation} (h : c.isDue = true) : c = .after 0 := by
  cases c with
  | never => cases h
  | after asked => rw [eq_of_beq h]

/-- A run of which a cancellation is left once `n` were told to go on. -/
theorem eq_after_of_past {c : Cancellation} {n asked : Nat} (hlasts : c.Lasts n)
    (h : c.past n = .after asked) : c = .after (n + asked) := by
  cases c with
  | never => cases h
  | after total =>
    have hleft : total - n = asked := after.inj h
    have henough : n ≤ total := hlasts
    rw [← hleft, Nat.add_sub_cancel' henough]

end Cancellation

namespace Sink

variable {c : Cancellation} {sink next : Sink} {name source : String}

theorem write_of_isDue (hc : c.isDue = true) (sink : Sink) (name source : String) :
    sink.write c name source = .error .cancelled := by
  unfold write
  exact if_pos hc

theorem write_of_not_isDue (hc : c.isDue = false) (sink : Sink) (name source : String) :
    sink.write c name source = sink.write .never name source := by
  unfold write
  rw [hc]
  rfl

theorem isDue_of_write (h : sink.write c name source = .ok next) : c.isDue = false := by
  rw [← Bool.not_eq_true]
  intro hc
  rw [write_of_isDue hc] at h
  cases h

theorem write_memory (held : List (String × String)) (name source : String) :
    (Sink.memory held).write .never name source = .ok (.memory (putNamed held name source)) :=
  rfl

end Sink

end Delivery

namespace Compile

def Event.written? : Event → Option String
  | written file _ => some file
  | _ => none

/-- The files that a run reports as written, in order. -/
def Outcome.written (o : Outcome) : List String :=
  o.events.filterMap Event.written?

/-- Files are accepted one after the other by a sink, which is then in the last of the states. Each
of them asks whether the run is cancelled. -/
inductive Delivers : Cancellation → Sink → List (String × String) → Sink → Prop where
  | nil (c : Cancellation) (sink : Sink) : Delivers c sink [] sink
  | cons {c : Cancellation} {sink next last : Sink} {name source : String}
      {files : List (String × String)} (h : sink.write c name source = .ok next)
      (rest : Delivers (c.past 1) next files last) :
      Delivers c sink ((name, source) :: files) last

variable {c : Cancellation} {sink : Sink} {files : List (String × String)}

theorem Delivers.eq_of_nil {last : Sink} (h : Delivers c sink [] last) : last = sink := by
  cases h
  rfl

theorem Delivers.lasts {last : Sink} (h : Delivers c sink files last) : c.Lasts files.length := by
  induction h with
  | nil c sink => exact c.lasts_zero
  | cons hwrite rest ih => exact Cancellation.lasts_succ.2 ⟨Sink.isDue_of_write hwrite, ih⟩

theorem Delivers.memory {held : List (String × String)} {last : Sink}
    (h : Delivers c (.memory held) files last) : ∃ held', last = .memory held' := by
  induction files generalizing c held with
  | nil => exact ⟨held, h.eq_of_nil⟩
  | cons file files ih =>
    cases h with
    | cons hwrite rest =>
      rw [Sink.write_of_not_isDue (Sink.isDue_of_write hwrite), Sink.write_memory] at hwrite
      cases hwrite
      exact ih rest

@[simp] theorem written_after_written (o : Outcome) (name : String) (bytes : Nat) :
    (o.after (.written name bytes)).written = name :: o.written :=
  rfl

/-- Delivery goes through all files, or stops at the first that is refused. What came before it
stays written. -/
theorem deliver_cases (c : Cancellation) (sink : Sink) (files : List (String × String)) :
    ((deliver c sink files).result = .ok () ∧
      Delivers c sink files (deliver c sink files).sink ∧
      (deliver c sink files).written = files.map Prod.fst) ∨
    ∃ before name source after reason, files = before ++ (name, source) :: after ∧
      Delivers c sink before (deliver c sink files).sink ∧
      (deliver c sink files).sink.write (c.past before.length) name source = .error reason ∧
      (deliver c sink files).result = .error (.undelivered reason) ∧
      (deliver c sink files).written = before.map Prod.fst := by
  induction files generalizing c sink with
  | nil => exact Or.inl ⟨rfl, .nil c sink, rfl⟩
  | cons file files ih =>
    obtain ⟨name, source⟩ := file
    rw [deliver]
    cases hwrite : sink.write c name source with
    | error reason =>
      have hfirst : sink.write (c.past 0) name source = .error reason := by
        rw [Cancellation.past_zero, hwrite]
      exact Or.inr ⟨[], name, source, files, reason, rfl, .nil c sink, hfirst, rfl, rfl⟩
    | ok next =>
      rcases ih (c.past 1) next with ⟨hok, hall, hwritten⟩ |
        ⟨before, name', source', after, reason, rfl, hbefore, hrefused, herror, hwritten⟩
      · refine Or.inl ⟨hok, .cons hwrite hall, ?_⟩
        rw [written_after_written, hwritten]
        rfl
      · rw [Cancellation.past_past, Nat.add_comm] at hrefused
        refine Or.inr ⟨(name, source) :: before, name', source', after, reason, rfl,
          .cons hwrite hbefore, hrefused, herror, ?_⟩
        rw [written_after_written, hwritten]
        rfl

theorem deliverAll_of_error {problem : Problem}
    (h : (deliverAll c sink files).result = .error problem) :
    deliverAll c sink files = deliver c sink files := by
  unfold deliverAll at h ⊢
  cases hr : (deliver c sink files).result with
  | ok u =>
    simp only [hr] at h
    cases h
  | error e => simp only [hr]

theorem generateAll_written (g : Graph) (c : Cancellation) (requested : List RequestedFile) :
    (generateAll g c requested).1.filterMap Event.written? = [] := by
  induction requested generalizing c with
  | nil => rfl
  | cons file requested ih =>
    rw [generateAll]
    cases c.isDue with
    | true => rfl
    | false =>
      cases generateFile g file with
      | error failure => rfl
      | ok output => exact ih (c.past 1)

/-- All files are there if each of them is, and the run is cancelled for none. -/
theorem generateAll_eq_ok_iff {g : Graph} {requested : List RequestedFile}
    {outputs : List FileOutput} :
    (generateAll g c requested).2 = .ok outputs ↔ c.Lasts requested.length ∧
      List.Forall₂ (fun file output => generateFile g file = .ok output) requested outputs := by
  induction requested generalizing c outputs with
  | nil =>
    rw [List.forall₂_nil_left_iff, List.length_nil, and_iff_right c.lasts_zero, generateAll,
      Except.ok.injEq, eq_comm]
  | cons file requested ih =>
    rw [generateAll, List.length_cons, Cancellation.lasts_succ, List.forall₂_cons_left_iff]
    cases c.isDue with
    | true => simp
    | false =>
      cases generateFile g file with
      | error failure => simp
      | ok output => simp [exceptMap_eq_ok_iff, ih, and_assoc, @eq_comm _ (output :: _)]

/-- Nothing is written before all files are there. -/
theorem requestOutputs_written (settings : Settings) (c : Cancellation) (request : Request) :
    (requestOutputs settings c request).1.filterMap Event.written? = [] := by
  unfold requestOutputs
  cases Graph.ofNodes request.nodes with
  | error failure => rfl
  | ok g => exact generateAll_written g c request.files

theorem requestOutputs_eq_ok_iff {settings : Settings} {request : Request} :
    (requestOutputs settings c request).2 = .ok files ↔ c.Lasts request.files.length ∧
      ∃ g outputs, Graph.ofNodes request.nodes = .ok g ∧
        List.Forall₂ (fun file output => generateFile g file = .ok output) request.files outputs ∧
        files = outputs.map (delivered settings.suffix) := by
  unfold requestOutputs
  cases hg : Graph.ofNodes request.nodes with
  | error failure => simp
  | ok g =>
    simp [exceptMap_eq_ok_iff, generateAll_eq_ok_iff, and_assoc, @eq_comm _ files]

/-- A file that is refused once others were accepted is so because the run is cancelled just then,
or by a directory. -/
theorem Delivers.refused {last : Sink} {name source : String} {reason : Undelivered}
    (h : Delivers c sink files last)
    (hrefused : last.write (c.past files.length) name source = .error reason) :
    (reason = .cancelled ∧ c = .after files.length) ∨
      ∃ root tree, sink = .directory root tree ∧ last.write .never name source = .error reason := by
  cases hdue : (c.past files.length).isDue with
  | true =>
    rw [Sink.write_of_isDue hdue] at hrefused
    cases hrefused
    exact Or.inl ⟨rfl, Cancellation.eq_after_of_past h.lasts (Cancellation.eq_after_of_isDue hdue)⟩
  | false =>
    rw [Sink.write_of_not_isDue hdue] at hrefused
    cases sink with
    | memory held =>
      -- memory accepts every file, the one that was refused too
      obtain ⟨held', rfl⟩ := h.memory
      rw [Sink.write_memory] at hrefused
      cases hrefused
    | directory root tree => exact Or.inr ⟨root, tree, rfl, hrefused⟩

/-- A run that fails has written nothing if its files are not all there. If they are, one of them is
refused, and just those that come before it are written. Any sink refuses a file when the run is
cancelled by then, and but for that only a directory does. -/
theorem failed_run_writes_before_refused (settings : Settings) (c : Cancellation) (sink : Sink)
    (request : Request) (problem : Problem)
    (h : (run settings c sink request).result = .error problem) :
    ((requestOutputs settings c request).2 = .error problem ∧
      (run settings c sink request).sink = sink ∧ (run settings c sink request).written = []) ∨
    ∃ reason before name source after, problem = .undelivered reason ∧
      (requestOutputs settings c request).2 = .ok (before ++ (name, source) :: after) ∧
      Delivers (c.past request.files.length) sink before (run settings c sink request).sink ∧
      (run settings c sink request).written = before.map Prod.fst ∧
      ((reason = .cancelled ∧ c = .after (request.files.length + before.length)) ∨
        ∃ root tree, sink = .directory root tree ∧
          (run settings c sink request).sink.write .never name source = .error reason) := by
  have hnone := requestOutputs_written settings c request
  unfold run at h ⊢
  cases hout : requestOutputs settings c request with
  | mk events result =>
    rw [hout] at h hnone
    cases result with
    | error e =>
      cases h
      exact Or.inl ⟨rfl, rfl, hnone⟩
    | ok files =>
      have hlasts : c.Lasts request.files.length := (requestOutputs_eq_ok_iff.1 (by rw [hout])).1
      have hdeliver := deliverAll_of_error h
      simp only [finish, hdeliver, Outcome.written, List.filterMap_append, hnone, List.nil_append]
        at h ⊢
      rcases deliver_cases (c.past request.files.length) sink files with ⟨hok, -⟩ |
        ⟨before, name, source, after, reason, hfiles, hbefore, hrefused, herror, hwritten⟩
      · rw [hok] at h
        cases h
      · have hproblem : problem = .undelivered reason := Except.error.inj (h.symm.trans herror)
        refine Or.inr ⟨reason, before, name, source, after, hproblem, by rw [hfiles], hbefore,
          hwritten, ?_⟩
        rcases hbefore.refused hrefused with ⟨hreason, hc⟩ | hdirectory
        · exact Or.inl ⟨hreason, Cancellation.eq_after_of_past hlasts hc⟩
        · exact Or.inr hdirectory

namespace Books

def file (id : UInt64) (name : String) : Node :=
  { (default : Node) with id := id, kind := .fileNode, displayName := name }

/-- The second of the requested files is not there. -/
def incomplete : Request :=
  ⟨[file 1 "novels"], [⟨1, "novels", []⟩, ⟨2, "poems", []⟩]⟩

/-- The name of the second file leads out of the directory that it should go to. -/
def escaping : Request :=
  ⟨[file 1 "novels", file 2 "../poems"], [⟨1, "novels", []⟩, ⟨2, "../poems", []⟩]⟩

def shelf : Sink :=
  .directory "out" .empty

end Books

/-- The first file could be generated, but is not written when the second cannot. -/
theorem failed_run_writes_before_refused_incomplete :
    (∃ failure, (run .standard .never Books.shelf Books.incomplete).result =
      .error (.generating failure)) ∧
    (run .standard .never Books.shelf Books.incomplete).sink = Books.shelf ∧
    (run .standard .never Books.shelf Books.incomplete).written = [] := by
  have hresult : (run .standard .never Books.shelf Books.incomplete).result =
      .error (.generating ((Failure.ofCause (.unknownNode 2)).within (.requestedFile "poems"))) :=
    rfl
  refine ⟨⟨_, hresult⟩, ?_⟩
  rcases failed_run_writes_before_refused _ _ _ _ _ hresult with ⟨-, hnone⟩ | hsome
  · exact hnone
  · obtain ⟨_, _, _, _, _, hproblem, -⟩ := hsome
    cases hproblem

/-- The directory takes the first file and refuses the second, so the run fails and the first file
is left behind. A run that is cancelled between the two leaves it in memory too. -/
theorem failed_run_leaves_file :
    (run .standard .never Books.shelf Books.escaping).result =
      .error (.undelivered (.escapes "../poems.js" "out")) ∧
    (run .standard .never Books.shelf Books.escaping).written = ["novels.js"] ∧
    (∃ tree, (run .standard .never Books.shelf Books.escaping).sink = .directory "out" tree ∧
      (tree.file? ⟨false, ["out", "novels.js"]⟩).isSome = true) ∧
    (run .standard (.after 3) (.memory []) Books.escaping).result =
      .error (.undelivered .cancelled) ∧
    (run .standard (.after 3) (.memory []) Books.escaping).written = ["novels.js"] ∧
    ((run .standard (.after 3) (.memory []) Books.escaping).sink.file? "novels.js").isSome =
      true :=
  ⟨rfl, rfl, ⟨_, rfl, rfl⟩, rfl, rfl, rfl⟩

end Compile

end SchemaBindings
