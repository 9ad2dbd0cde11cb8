import Mathlib.Algebra.Ring.Nat
import SchemaBindings.Compile.Pool
import SchemaBindings.Proofs.Compile.DeliveredFiles

namespace SchemaBindings

namespace Delivery.Cancellation

/-- The cancellation of a run of which this one is left after `n` have asked. -/
def later : Cancellation → Nat → Cancellation
  | never, _ => never
  | after asked, n => after (asked + n)

theorem past_later (c : Cancellation) (n : Nat) : (c.later n).past n = c := by
  cases c with
  | never => rfl
  | after asked => exact congrArg after (Nat.add_sub_cancel asked n)

theorem lasts_later (c : Cancellation) (n : Nat) : (c.later n).Lasts n := by
  cases c with
  | never => trivial
  | after asked => exact Nat.le_add_left n asked

end Delivery.Cancellation

namespace Compile

open SchemaBindings.Schema SchemaBindings.Bindings SchemaBindings.Delivery SchemaBindings.Outcome

/-- What each move does, and when a pool can take it. -/
inductive Pool.Step (g : Graph) (files : List RequestedFile) (limit : Nat) (pool : Pool) :
    Move → Pool → Prop where
  | launch {task : Nat} (hwaiting : pool.phases[task]? = some .waiting)
      (hroom : pool.active < limit) :
      Step g files limit pool .launch (pool.moveOn task .started)
  | giveUp {task : Nat} (hstarted : pool.phases[task]? = some .started)
      (hcancelled : pool.isCancelled = true) :
      Step g files limit pool (.look task)
        (pool.moveOn task (.returned (some .generationCancelled)))
  | goOn {task : Nat} (hstarted : pool.phases[task]? = some .started)
      (hcancelled : pool.isCancelled = false) :
      Step g files limit pool (.look task) (pool.moveOn task .generating)
  | fail {task : Nat} {file : RequestedFile} {failure : Failure}
      (hgenerating : pool.phases[task]? = some .generating) (hfile : files[task]? = some file)
      (hfailure : generateFile g file = .error failure) :
      Step g files limit pool (.generate task)
        (pool.moveOn task (.returned (some (.generating failure))))
  | store {task : Nat} {file : RequestedFile} {output : FileOutput}
      (hgenerating : pool.phases[task]? = some .generating) (hfile : files[task]? = some file)
      (houtput : generateFile g file = .ok output) :
      Step g files limit pool (.generate task) (pool.store task output)
  | report {task : Nat} {problem? : Option Problem}
      (hreturned : pool.phases[task]? = some (.returned problem?)) :
      Step g files limit pool (.report task) (pool.conclude task problem?)
  | interrupt : Step g files limit pool .interrupt { pool with interrupted := true }

namespace Pool

variable {g : Graph} {files : List RequestedFile} {limit : Nat} {pool moved last : Pool}
  {move : Move} {schedule : List Move}

theorem isWaiting_iff {phase : Phase} : phase.isWaiting = true ↔ phase = .waiting := by
  cases phase <;> simp [Phase.isWaiting]

theorem step_cases (h : pool.step g files limit move = some moved) :
    Step g files limit pool move moved := by
  cases move with
  | launch =>
    simp only [step] at h
    split at h
    next task hfirst =>
      split_ifs at h with hroom
      cases h
      obtain ⟨hlt, hwaiting, -⟩ := List.findIdx?_eq_some_iff_getElem.1 hfirst
      have hphase := isWaiting_iff.1 hwaiting
      exact .launch (List.getElem?_eq_some_iff.2 ⟨hlt, hphase⟩) hroom
    next => cases h
  | look task =>
    simp only [step] at h
    split at h
    next hstarted =>
      split_ifs at h with hcancelled
      · cases h
        exact .giveUp hstarted hcancelled
      · cases h
        exact .goOn hstarted (Bool.eq_false_iff.2 hcancelled)
    next => cases h
  | generate task =>
    simp only [step] at h
    split at h
    next file hfile hgenerating =>
      split at h
      next failure hfailure =>
        cases h
        exact .fail hgenerating hfile hfailure
      next output houtput =>
        cases h
        exact .store hgenerating hfile houtput
    next => cases h
  | report task =>
    simp only [step] at h
    split at h
    next problem? hreturned =>
      cases h
      exact .report hreturned
    next => cases h
  | interrupt =>
    cases h
    exact .interrupt

/-- What holds at the start and is kept by every move holds after a schedule. -/
theorem run_induct {motive : List Move → Pool → Prop} (hstart : motive [] pool)
    (hstep : ∀ schedule now move moved, motive schedule now → Step g files limit now move moved →
      motive (schedule ++ [move]) moved)
    (h : pool.run g files limit schedule = some last) : motive schedule last := by
  induction schedule using List.reverseRecOn generalizing last with
  | nil =>
    cases h
    exact hstart
  | append_singleton schedule move ih =>
    simp only [run, List.foldlM_append, Option.bind_eq_bind, Option.bind_eq_some_iff] at h
    obtain ⟨now, hnow, hmove⟩ := h
    rw [List.foldlM_cons, Option.bind_eq_bind, Option.bind_eq_some_iff] at hmove
    obtain ⟨moved, hmoved, hlast⟩ := hmove
    cases hlast
    exact hstep schedule now move last (ih hnow) (step_cases hmoved)

end Pool

/-- The most moves that a task has before it. -/
def Phase.stepsLeft : Phase → Nat
  | waiting => 4
  | started => 3
  | generating => 2
  | returned _ => 1
  | finished _ => 0

namespace Pool

variable {g : Graph} {files : List RequestedFile} {limit : Nat} {pool moved last : Pool}
  {move : Move} {schedule : List Move}

def stepsLeft (pool : Pool) : Nat :=
  (pool.phases.map Phase.stepsLeft).sum

theorem stepsLeft_set {phases : List Phase} {task : Nat} {old : Phase} (new : Phase)
    (h : phases[task]? = some old) :
    ((phases.set task new).map Phase.stepsLeft).sum + old.stepsLeft =
      (phases.map Phase.stepsLeft).sum + new.stepsLeft := by
  induction phases generalizing task with
  | nil => cases h
  | cons phase phases ih =>
    cases task with
    | zero =>
      cases h
      simp only [List.set_cons_zero, List.map_cons, List.sum_cons]
      omega
    | succ task =>
      have hrest := ih h
      simp only [List.set_cons_succ, List.map_cons, List.sum_cons]
      omega

/-- A move takes one task further, unless it is an interrupt. -/
theorem Step.task_moves (h : Step g files limit pool move moved) (hmove : move ≠ .interrupt) :
    ∃ task old new, pool.phases[task]? = some old ∧ moved.phases = pool.phases.set task new ∧
      new.stepsLeft < old.stepsLeft := by
  cases h with
  | launch hwaiting _ => exact ⟨_, _, _, hwaiting, rfl, by decide⟩
  | giveUp hstarted _ => exact ⟨_, _, _, hstarted, rfl, by decide⟩
  | goOn hstarted _ => exact ⟨_, _, _, hstarted, rfl, by decide⟩
  | fail hgenerating _ _ => exact ⟨_, _, _, hgenerating, rfl, Nat.one_lt_two⟩
  | store hgenerating _ _ => exact ⟨_, _, _, hgenerating, rfl, by decide⟩
  | report hreturned => exact ⟨_, _, _, hreturned, rfl, Nat.zero_lt_one⟩
  | interrupt => exact absurd rfl hmove

theorem Step.stepsLeft_lt (h : Step g files limit pool move moved) (hmove : move ≠ .interrupt) :
    moved.stepsLeft < pool.stepsLeft := by
  obtain ⟨task, old, new, hold, hphases, hlt⟩ := h.task_moves hmove
  have hset := stepsLeft_set new hold
  unfold stepsLeft
  rw [hphases]
  omega

theorem stepsLeft_start (files : List RequestedFile) :
    (start files).stepsLeft = 4 * files.length := by
  simp [start, stepsLeft, Phase.stepsLeft, Nat.mul_comm]

/-- Interrupts apart, a schedule has at most four moves for each file. -/
theorem run_stepsLeft (h : (start files).run g files limit schedule = some last) :
    schedule.countP (· ≠ .interrupt) + last.stepsLeft ≤ 4 * files.length := by
  refine run_induct (motive := fun schedule now =>
    schedule.countP (· ≠ .interrupt) + now.stepsLeft ≤ 4 * files.length) ?_ ?_ h
  · simp [stepsLeft_start]
  · intro schedule now move moved hbound hstep
    rw [List.countP_append]
    by_cases hmove : move = .interrupt
    · subst hmove
      cases hstep
      exact hbound
    · have hlt := hstep.stepsLeft_lt hmove
      have hcount : [move].countP (· ≠ .interrupt) = 1 := by simp [hmove]
      omega

/-- If no task is under way, one that is left has not been launched. -/
theorem exists_waiting (hactive : pool.active = 0) (h : pool.stepsLeft ≠ 0) :
    ∃ phase ∈ pool.phases, phase.isWaiting = true := by
  have hnone := List.countP_eq_zero.1 hactive
  by_contra hno
  push Not at hno
  apply h
  unfold stepsLeft
  rw [List.sum_eq_zero_iff_forall_eq_nat]
  intro steps hsteps
  obtain ⟨phase, hphase, rfl⟩ := List.mem_map.1 hsteps
  have hidle := hnone phase hphase
  have hnot := hno phase hphase
  cases phase <;> simp_all [Phase.isActive, Phase.isWaiting, Phase.stepsLeft]

/-- A pool that has a task left can move, as long as it may run one task at a time. -/
theorem exists_step (hlength : pool.phases.length = files.length) (hlimit : 0 < limit)
    (h : pool.stepsLeft ≠ 0) :
    ∃ move, move ≠ .interrupt ∧ (pool.step g files limit move).isSome = true := by
  by_cases hactive : pool.active = 0
  · -- no task is under way, so there is room for one that waits
    refine ⟨.launch, by decide, ?_⟩
    cases hfirst : pool.phases.findIdx? Phase.isWaiting with
    | none =>
      obtain ⟨phase, hphase, hwait⟩ := exists_waiting hactive h
      rw [List.findIdx?_eq_none_iff.1 hfirst phase hphase] at hwait
      cases hwait
    | some task => simp [step, hfirst, hactive, hlimit]
  · obtain ⟨phase, hphase, hbusy⟩ := List.countP_pos_iff.1 (Nat.pos_of_ne_zero hactive)
    obtain ⟨task, htask⟩ := List.mem_iff_getElem?.1 hphase
    cases phase with
    | waiting => cases hbusy
    | finished problem? => cases hbusy
    | started =>
      refine ⟨.look task, by simp, ?_⟩
      simp only [step, htask]
      split_ifs <;> rfl
    | generating =>
      refine ⟨.generate task, by simp, ?_⟩
      have hlt : task < files.length := by
        rw [← hlength]
        exact (List.getElem?_eq_some_iff.1 htask).1
      simp only [step, List.getElem?_eq_getElem hlt, htask]
      cases generateFile g files[task] with
      | error failure => rfl
      | ok output => rfl
    | returned problem? =>
      refine ⟨.report task, by simp, ?_⟩
      simp only [step, htask]
      rfl

end Pool

/-- A task for a file may end with a problem: because the file fails, or because the pool is
cancelled. -/
inductive Explains (g : Graph) (file : RequestedFile) (cancelled : Bool) : Problem → Prop where
  | failure {failure : Failure} (h : generateFile g file = .error failure) :
      Explains g file cancelled (.generating failure)
  | cancelled (h : cancelled = true) : Explains g file cancelled .generationCancelled

/-- A task that is through has stored the output of its file, or has a problem that is explained. -/
def Phase.Fits (g : Graph) (file : RequestedFile) (output? : Option FileOutput)
    (cancelled : Bool) : Phase → Prop
  | returned none | finished none => ∃ output, generateFile g file = .ok output ∧
      output? = some output
  | returned (some problem) | finished (some problem) => Explains g file cancelled problem
  | waiting | started | generating => True

theorem Explains.mono {g : Graph} {file : RequestedFile} {before after : Bool} {problem : Problem}
    (h : Explains g file before problem) (hmono : before = true → after = true) :
    Explains g file after problem := by
  cases h with
  | failure h => exact .failure h
  | cancelled h => exact .cancelled (hmono h)

theorem Phase.Fits.mono {g : Graph} {file : RequestedFile} {output? : Option FileOutput}
    {before after : Bool} {phase : Phase} (h : phase.Fits g file output? before)
    (hmono : before = true → after = true) : phase.Fits g file output? after := by
  cases phase with
  | waiting => exact h
  | started => exact h
  | generating => exact h
  | returned problem? | finished problem? =>
    cases problem? with
    | none => exact h
    | some problem => exact Explains.mono h hmono

namespace Pool

variable {g : Graph} {files : List RequestedFile} {limit : Nat} {pool moved last : Pool}
  {move : Move} {schedule : List Move}

/-- Every file has its task and its place for an output, and the phase of the task fits them. A
problem that was reported is noted. The one that is noted is the failure of a file, unless the run
was interrupted. -/
structure Sound (g : Graph) (files : List RequestedFile) (pool : Pool) : Prop where
  phases_length : pool.phases.length = files.length
  outputs_length : pool.outputs.length = files.length
  fits : ∀ (task : Nat) (file : RequestedFile) (phase : Phase) (output? : Option FileOutput),
    files[task]? = some file → pool.phases[task]? = some phase →
    pool.outputs[task]? = some output? → phase.Fits g file output? pool.isCancelled
  noted : ∀ problem, .finished (some problem) ∈ pool.phases → pool.problem?.isSome = true
  failed : ∀ problem, pool.problem? = some problem → pool.interrupted = false →
    ∃ file ∈ files, ∃ failure, generateFile g file = .error failure ∧
      problem = .generating failure

theorem sound_start (g : Graph) (files : List RequestedFile) : (start files).Sound g files where
  phases_length := by simp [start]
  outputs_length := by simp [start]
  fits := by
    intro task file phase output? _ hphase _
    have hwaiting := List.mem_of_getElem? hphase
    simp only [start, List.mem_map] at hwaiting
    obtain ⟨_, _, rfl⟩ := hwaiting
    trivial
  noted := by
    intro problem hfinished
    simp [start] at hfinished
  failed := by
    intro problem hproblem
    cases hproblem

/-- One task has moved and the others are where they were. -/
theorem Sound.fits_set {task : Nat} {phase : Phase} (hs : pool.Sound g files)
    (hphases : moved.phases = pool.phases.set task phase)
    (houtputs : ∀ other, other ≠ task → moved.outputs[other]? = pool.outputs[other]?)
    (hcancelled : pool.isCancelled = true → moved.isCancelled = true)
    (hphase : ∀ file output?, files[task]? = some file → moved.outputs[task]? = some output? →
      phase.Fits g file output? moved.isCancelled)
    (other : Nat) (file : RequestedFile) (now : Phase) (output? : Option FileOutput)
    (hfile : files[other]? = some file) (hnow : moved.phases[other]? = some now)
    (houtput : moved.outputs[other]? = some output?) :
    now.Fits g file output? moved.isCancelled := by
  rw [hphases] at hnow
  by_cases hother : other = task
  · subst hother
    have hmem : other < pool.phases.length := by
      have hlt := (List.getElem?_eq_some_iff.1 hnow).1
      rwa [List.length_set] at hlt
    rw [List.getElem?_set_self hmem] at hnow
    cases hnow
    exact hphase file output? hfile houtput
  · rw [List.getElem?_set_ne (Ne.symm hother)] at hnow
    rw [houtputs other hother] at houtput
    exact (hs.fits other file now output? hfile hnow houtput).mono hcancelled

theorem mem_set_finished {task : Nat} {phases : List Phase} {new : Phase} {problem : Problem}
    (h : .finished (some problem) ∈ phases.set task new)
    (hnew : new ≠ .finished (some problem)) : .finished (some problem) ∈ phases := by
  rcases List.mem_or_eq_of_mem_set h with hold | heq
  · exact hold
  · exact absurd heq.symm hnew

theorem Sound.moveOn {task : Nat} {phase : Phase} (hs : pool.Sound g files)
    (hphase : ∀ file output?, files[task]? = some file → pool.outputs[task]? = some output? →
      phase.Fits g file output? pool.isCancelled)
    (hopen : phase.isFinished = false) : (pool.moveOn task phase).Sound g files where
  phases_length := by rw [Pool.moveOn, List.length_set, hs.phases_length]
  outputs_length := hs.outputs_length
  fits := hs.fits_set rfl (fun _ _ => rfl) id hphase
  noted := by
    intro problem hfinished
    apply hs.noted problem
    apply mem_set_finished hfinished
    rintro rfl
    cases hopen
  failed := hs.failed

theorem Sound.store {task : Nat} {file : RequestedFile} {output : FileOutput}
    (hs : pool.Sound g files) (hfile : files[task]? = some file)
    (houtput : generateFile g file = .ok output) : (pool.store task output).Sound g files where
  phases_length := by rw [Pool.store, Pool.moveOn, List.length_set, hs.phases_length]
  outputs_length := by rw [Pool.store, List.length_set, hs.outputs_length]
  fits := by
    have hothers : ∀ other, other ≠ task →
        (pool.store task output).outputs[other]? = pool.outputs[other]? :=
      fun other hother => List.getElem?_set_ne (Ne.symm hother)
    refine hs.fits_set rfl hothers id ?_
    intro file' output? hfile' hstored
    have hplace : task < pool.outputs.length := by
      rw [hs.outputs_length]
      exact (List.getElem?_eq_some_iff.1 hfile).1
    rw [hfile] at hfile'
    cases hfile'
    rw [Pool.store, List.getElem?_set_self hplace] at hstored
    cases hstored
    exact ⟨output, houtput, rfl⟩
  noted := by
    intro problem hfinished
    exact hs.noted problem (mem_set_finished hfinished (by simp))
  failed := hs.failed

theorem isCancelled_eq_true {pool : Pool} :
    pool.isCancelled = true ↔ pool.interrupted = true ∨ pool.problem?.isSome = true := by
  simp [isCancelled]

/-- What a task returns while nothing has cancelled the pool is the failure of its own file. -/
theorem Sound.returned_failure {task : Nat} {problem : Problem} (hs : pool.Sound g files)
    (hreturned : pool.phases[task]? = some (.returned (some problem)))
    (hcancelled : pool.isCancelled = false) :
    ∃ file ∈ files, ∃ failure, generateFile g file = .error failure ∧
      problem = .generating failure := by
  have hplace : task < files.length := by
    rw [← hs.phases_length]
    exact (List.getElem?_eq_some_iff.1 hreturned).1
  have hstored : task < pool.outputs.length := hs.outputs_length ▸ hplace
  have hexplained : Explains g files[task] pool.isCancelled problem :=
    hs.fits task _ _ _ (List.getElem?_eq_getElem hplace) hreturned
      (List.getElem?_eq_getElem hstored)
  cases hexplained with
  | failure hfailure => exact ⟨_, List.getElem_mem hplace, _, hfailure, rfl⟩
  | cancelled hyes =>
    rw [hcancelled] at hyes
    cases hyes

theorem Sound.conclude {task : Nat} {problem? : Option Problem} (hs : pool.Sound g files)
    (hreturned : pool.phases[task]? = some (.returned problem?)) :
    (pool.conclude task problem?).Sound g files := by
  have hcancelled : pool.isCancelled = true → (pool.conclude task problem?).isCancelled = true := by
    simp only [isCancelled_eq_true, Pool.conclude, Pool.moveOn]
    rintro (hinterrupted | hproblem)
    · exact Or.inl hinterrupted
    · exact Or.inr (by simp [Option.isSome_or, hproblem])
  refine ⟨?_, hs.outputs_length, ?_, ?_, ?_⟩
  · rw [Pool.conclude, Pool.moveOn, List.length_set, hs.phases_length]
  · refine hs.fits_set rfl (fun _ _ => rfl) hcancelled ?_
    intro file output? hfile houtput
    have hfits := (hs.fits task file _ output? hfile hreturned houtput).mono hcancelled
    cases problem? with
    | none => exact hfits
    | some problem => exact hfits
  · intro problem hfinished
    rcases List.mem_or_eq_of_mem_set hfinished with hold | heq
    · have hnoted := hs.noted problem hold
      simp [Pool.conclude, Pool.moveOn, Option.isSome_or, hnoted]
    · cases heq
      simp [Pool.conclude, Pool.moveOn]
  · intro problem hproblem hinterrupted
    rcases Option.or_eq_some_iff.1 hproblem with hold | ⟨hnone, hnew⟩
    · exact hs.failed problem hold hinterrupted
    · -- the first problem to be noted is its file's own, since nothing has cancelled the pool
      subst hnew
      have hgoes : pool.interrupted = false := hinterrupted
      exact hs.returned_failure hreturned (by simp [isCancelled, hgoes, hnone])

theorem Sound.interrupt (hs : pool.Sound g files) :
    ({ pool with interrupted := true } : Pool).Sound g files where
  phases_length := hs.phases_length
  outputs_length := hs.outputs_length
  fits := by
    intro task file phase output? hfile hphase houtput
    refine (hs.fits task file phase output? hfile hphase houtput).mono ?_
    intro _
    rfl
  noted := hs.noted
  failed := by
    intro problem _ hinterrupted
    cases hinterrupted

/-- Every move keeps a pool sound. -/
theorem Step.sound (h : Step g files limit pool move moved) (hs : pool.Sound g files) :
    moved.Sound g files := by
  cases h with
  | launch _ _ => exact hs.moveOn (fun _ _ _ _ => trivial) rfl
  | giveUp _ hcancelled => exact hs.moveOn (fun _ _ _ _ => .cancelled hcancelled) rfl
  | goOn _ _ => exact hs.moveOn (fun _ _ _ _ => trivial) rfl
  | fail _ hfile hfailure =>
    refine hs.moveOn ?_ rfl
    intro file output? hsame _
    rw [hfile] at hsame
    cases hsame
    exact .failure hfailure
  | store _ hfile houtput => exact hs.store hfile houtput
  | report hreturned => exact hs.conclude hreturned
  | interrupt => exact hs.interrupt

theorem run_sound (h : (start files).run g files limit schedule = some last) :
    last.Sound g files := by
  refine run_induct (motive := fun _ now => now.Sound g files) (sound_start g files) ?_ h
  intro _ now move moved hs hstep
  exact hstep.sound hs

theorem Step.interrupted (h : Step g files limit pool move moved) :
    moved.interrupted = (pool.interrupted || decide (move = .interrupt)) := by
  cases h <;> simp [Pool.moveOn, Pool.store, Pool.conclude]

theorem run_interrupted (h : (start files).run g files limit schedule = some last) :
    last.interrupted = schedule.contains .interrupt := by
  refine run_induct (motive := fun schedule now =>
    now.interrupted = schedule.contains .interrupt) rfl ?_ h
  intro schedule now move moved hnow hstep
  rw [hstep.interrupted, hnow]
  simp [List.contains_eq_mem, eq_comm, Bool.decide_or]

theorem Step.events_written (h : Step g files limit pool move moved) :
    moved.events.filterMap Event.written? = pool.events.filterMap Event.written? := by
  cases h <;> simp [Pool.moveOn, Pool.store, Pool.conclude, Event.written?]

/-- Nothing is written while tasks are at work. -/
theorem run_events_written (h : (start files).run g files limit schedule = some last) :
    last.events.filterMap Event.written? = [] := by
  refine run_induct (motive := fun _ now => now.events.filterMap Event.written? = []) rfl ?_ h
  intro _ now move moved hnow hstep
  rw [hstep.events_written, hnow]

theorem stepsLeft_eq_zero_iff {pool : Pool} :
    pool.stepsLeft = 0 ↔ ∀ phase ∈ pool.phases, ∃ problem?, phase = .finished problem? := by
  unfold stepsLeft
  rw [List.sum_eq_zero_iff_forall_eq_nat, List.forall_mem_map]
  refine forall₂_congr ?_
  intro phase _
  cases phase <;> simp [Phase.stepsLeft]

theorem all_isFinished (h : pool.stepsLeft = 0) : pool.phases.all Phase.isFinished = true := by
  rw [List.all_eq_true]
  intro phase hphase
  obtain ⟨problem?, rfl⟩ := stepsLeft_eq_zero_iff.1 h phase hphase
  rfl

theorem mapM_id_eq_some {outputs : List (Option FileOutput)} {stored : List FileOutput}
    (h : List.Forall₂ (fun output? output => output? = some output) outputs stored) :
    outputs.mapM id = some stored := by
  induction h with
  | nil => rfl
  | cons hfirst _ ih =>
    subst hfirst
    rw [List.mapM_cons, ih]
    rfl

/-- Where every task has finished well, every place holds the output of its file. -/
theorem Sound.stored (hs : pool.Sound g files)
    (hwell : ∀ phase ∈ pool.phases, phase = .finished none) :
    ∃ outputs, pool.outputs.mapM id = some outputs ∧
      List.Forall₂ (fun file output => generateFile g file = .ok output) files outputs := by
  have hplaces : List.Forall₂ (fun file output? => ∃ output, generateFile g file = .ok output ∧
      output? = some output) files pool.outputs := by
    rw [List.forall₂_iff_get]
    refine ⟨hs.outputs_length.symm, ?_⟩
    intro task hfile houtput
    have hphase : task < pool.phases.length := hs.phases_length ▸ hfile
    have hfinished : pool.phases[task]? = some (.finished none) := by
      rw [List.getElem?_eq_getElem hphase, hwell _ (List.getElem_mem hphase)]
    exact hs.fits task _ _ _ (List.getElem?_eq_getElem hfile) hfinished
      (List.getElem?_eq_getElem houtput)
  obtain ⟨outputs, hgenerated, hstored⟩ := exists_forall₂ hplaces fun _ _ _ h => h
  exact ⟨outputs, mapM_id_eq_some hstored, hgenerated⟩

/-- A pool whose tasks have all finished has a result: the problem that is noted, or else the
outputs of all files. -/
theorem Sound.result_cases (hs : pool.Sound g files) (hdone : pool.stepsLeft = 0) :
    (∃ problem, pool.problem? = some problem ∧ pool.result? = some (.error problem)) ∨
    ∃ outputs, pool.result? = some (.ok outputs) ∧
      (∀ phase ∈ pool.phases, phase = .finished none) ∧
      List.Forall₂ (fun file output => generateFile g file = .ok output) files outputs := by
  have hall := all_isFinished hdone
  cases hproblem : pool.problem? with
  | some problem => exact Or.inl ⟨problem, rfl, by simp [result?, hall, hproblem]⟩
  | none =>
    have hwell : ∀ phase ∈ pool.phases, phase = .finished none := by
      intro phase hphase
      obtain ⟨problem?, rfl⟩ := stepsLeft_eq_zero_iff.1 hdone phase hphase
      cases problem? with
      | none => rfl
      | some problem =>
        have hnoted := hs.noted problem hphase
        rw [hproblem] at hnoted
        cases hnoted
    obtain ⟨outputs, hstored, hgenerated⟩ := hs.stored hwell
    exact Or.inr ⟨outputs, by simp [result?, hall, hproblem, hstored], hwell, hgenerated⟩

/-- A problem that no interruption explains is that of a file that cannot be generated. -/
theorem exists_failure {problem : Problem}
    (h : (start files).run g files limit schedule = some pool) (hgoes : .interrupt ∉ schedule)
    (hproblem : pool.problem? = some problem) :
    ∃ file ∈ files, ∃ failure, generateFile g file = .error failure := by
  have hinterrupted : pool.interrupted = false := by
    rw [run_interrupted h]
    simpa using hgoes
  obtain ⟨file, hfile, failure, hfailure, -⟩ := (run_sound h).failed problem hproblem hinterrupted
  exact ⟨file, hfile, failure, hfailure⟩

end Pool

theorem taskLimit_pos {settings : Settings} {processors : Nat} (h : 0 < processors) :
    0 < taskLimit settings processors := by
  unfold taskLimit
  split_ifs with hworkers
  · omega
  · exact h

theorem scheduledOutputs_eq_some {settings : Settings} {processors : Nat} {request : Request}
    {g : Graph} {schedule : List Move} {pool : Pool} {result : Except Problem (List FileOutput)}
    (hg : Graph.ofNodes request.nodes = .ok g)
    (h : (Pool.start request.files).run g request.files (taskLimit settings processors) schedule =
      some pool)
    (hresult : pool.result? = some result) :
    scheduledOutputs settings processors schedule request =
      some (.started request.nodes.length request.files.length :: pool.events,
        result.map fun outputs => outputs.map (delivered settings.suffix)) := by
  simp [scheduledOutputs, hg, h, hresult]

/-- The reports before a delivery have no part in it. -/
theorem finish_congr (c : Cancellation) (sink : Sink) {before after : List Event}
    {files : Except Problem (List (String × String))}
    (hbefore : before.filterMap Event.written? = [])
    (hafter : after.filterMap Event.written? = []) :
    (finish c sink (before, files)).sink = (finish c sink (after, files)).sink ∧
    (finish c sink (before, files)).result = (finish c sink (after, files)).result ∧
    (finish c sink (before, files)).written = (finish c sink (after, files)).written := by
  cases files with
  | error problem => exact ⟨rfl, rfl, hbefore.trans hafter.symm⟩
  | ok files =>
    refine ⟨rfl, rfl, ?_⟩
    simp only [finish, Outcome.written, List.filterMap_append, hbefore, hafter]

/-- Files are delivered as in a run that generates one after the other, if they are the same. -/
theorem finish_eq_run {settings : Settings} {c : Cancellation} {request : Request}
    {events : List Event} {files : List (String × String)} (sink : Sink)
    (hevents : events.filterMap Event.written? = [])
    (hsame : (requestOutputs settings c request).2 = .ok files) :
    let o := finish (c.past request.files.length) sink (events, .ok files)
    o.sink = (run settings c sink request).sink ∧
    o.result = (run settings c sink request).result ∧
    o.written = (run settings c sink request).written := by
  have hrun : requestOutputs settings c request =
      ((requestOutputs settings c request).1, .ok files) := by rw [← hsame]
  rw [run, hrun]
  exact finish_congr _ sink hevents (requestOutputs_written settings c request)

/-- No schedule of the tasks gets stuck or goes on for ever, and when it has come to its end all
files are there exactly if each of them can be generated. They are delivered in the order of the
request then, as they are when one is generated after the other, also where the delivery is
cancelled. If a task fails nothing is delivered. -/
theorem scheduled_run_delivers_in_order (settings : Settings) (processors : Nat)
    (request : Request) (g : Graph) (schedule : List Move) (pool : Pool)
    (hprocessors : 0 < processors) (hg : Graph.ofNodes request.nodes = .ok g)
    (h : (Pool.start request.files).run g request.files (taskLimit settings processors) schedule =
      some pool) :
    schedule.countP (· ≠ .interrupt) + pool.stepsLeft ≤ 4 * request.files.length ∧
    (pool.stepsLeft ≠ 0 → ∃ move, move ≠ .interrupt ∧
      (pool.step g request.files (taskLimit settings processors) move).isSome = true) ∧
    (pool.stepsLeft = 0 → ∃ events outputs,
      scheduledOutputs settings processors schedule request = some (events, outputs) ∧
      (.interrupt ∉ schedule → ((∃ files, outputs = .ok files) ↔
        ∀ file ∈ request.files, ∃ output, generateFile g file = .ok output)) ∧
      (∀ files, outputs = .ok files → (requestOutputs settings .never request).2 = .ok files) ∧
      ∀ c sink, ∃ o, scheduledRun settings processors schedule c sink request = some o ∧
        (.interrupt ∉ schedule → (∃ files, outputs = .ok files) →
          o.sink = (run settings (c.later request.files.length) sink request).sink ∧
          o.result = (run settings (c.later request.files.length) sink request).result ∧
          o.written = (run settings (c.later request.files.length) sink request).written) ∧
        ((∃ problem, .finished (some problem) ∈ pool.phases) →
          (∃ problem, o.result = .error problem) ∧ o.sink = sink ∧ o.written = [])) := by
  have hs := Pool.run_sound h
  have hnone := Pool.run_events_written h
  refine ⟨Pool.run_stepsLeft h, Pool.exists_step hs.phases_length (taskLimit_pos hprocessors), ?_⟩
  intro hdone
  rcases hs.result_cases hdone with ⟨problem, hproblem, hresult⟩ |
    ⟨outputs, hresult, hwell, hgenerated⟩
  · have hout := scheduledOutputs_eq_some hg h hresult
    refine ⟨_, _, hout, ?_, ?_, ?_⟩
    · intro hgoes
      constructor
      · rintro ⟨files, hfiles⟩
        cases hfiles
      · intro hall
        obtain ⟨file, hfile, failure, hfailure⟩ := Pool.exists_failure h hgoes hproblem
        obtain ⟨output, houtput⟩ := hall file hfile
        rw [hfailure] at houtput
        cases houtput
    · rintro files ⟨⟩
    · intro c sink
      refine ⟨_, by rw [scheduledRun, hout, Option.map_some], ?_, ?_⟩
      · rintro - ⟨files, ⟨⟩⟩
      · intro _
        exact ⟨⟨problem, rfl⟩, rfl, hnone⟩
  · have hout := scheduledOutputs_eq_some hg h hresult
    have hsame : ∀ c : Cancellation, c.Lasts request.files.length →
        (requestOutputs settings c request).2 = .ok (outputs.map (delivered settings.suffix)) :=
      fun c hlasts => requestOutputs_eq_ok_iff.2 ⟨hlasts, g, outputs, hg, hgenerated, rfl⟩
    refine ⟨_, _, hout, ?_, ?_, ?_⟩
    · intro _
      constructor
      · intro _ file hfile
        obtain ⟨output, -, houtput⟩ := exists_of_forall₂_left hgenerated hfile
        exact ⟨output, houtput⟩
      · intro _
        exact ⟨_, rfl⟩
    · intro files hfiles
      exact (hsame .never trivial).trans hfiles
    · intro c sink
      refine ⟨_, by rw [scheduledRun, hout, Option.map_some], ?_, ?_⟩
      · intro hgoes _
        have hcancelled : schedule.contains .interrupt = false := by simpa using hgoes
        have hdelivery := finish_eq_run sink hnone (hsame _ (c.lasts_later request.files.length))
        rw [Cancellation.past_later] at hdelivery
        rw [hcancelled]
        exact hdelivery
      · rintro ⟨problem, hfailed⟩
        cases hwell _ hfailed

/-- The second of two tasks is through before the first has looked, and still the files are
delivered in their order. -/
theorem scheduled_run_delivers_in_order_overtaken :
    ∃ g pool o, Graph.ofNodes Books.apart.nodes = .ok g ∧
      (Pool.start Books.apart.files).run g Books.apart.files (taskLimit .standard 2)
        [.launch, .launch, .look 1, .generate 1, .report 1, .look 0, .generate 0, .report 0] =
          some pool ∧
      scheduledRun .standard 2
        [.launch, .launch, .look 1, .generate 1, .report 1, .look 0, .generate 0, .report 0]
        .never (.memory []) Books.apart = some o ∧
      o.sink = (run .standard .never (.memory []) Books.apart).sink ∧
      o.written = ["novels.js", "poems.js"] := by
  obtain ⟨-, -, hend⟩ := scheduled_run_delivers_in_order .standard 2 Books.apart _
    [.launch, .launch, .look 1, .generate 1, .report 1, .look 0, .generate 0, .report 0] _
    (by decide) rfl rfl
  obtain ⟨events, outputs, hout, -, -, hrun⟩ := hend rfl
  obtain ⟨o, ho, hsame, -⟩ := hrun .never (.memory [])
  cases hout
  obtain ⟨hsink, -, hwritten⟩ := hsame (by decide) ⟨_, rfl⟩
  exact ⟨_, _, o, rfl, rfl, ho, hsink, hwritten⟩

end Compile

end SchemaBindings
