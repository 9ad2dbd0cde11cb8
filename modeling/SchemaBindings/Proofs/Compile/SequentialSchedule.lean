import SchemaBindings.Proofs.Compile.Schedules

namespace SchemaBindings.Compile

open SchemaBindings.Schema SchemaBindings.Bindings SchemaBindings.Delivery SchemaBindings.Outcome

/-- The moves of a cancelled pool from a task on, in which each task is only launched to look. -/
def givingUp : Nat → List RequestedFile → List Move
  | _, [] => []
  | task, _ :: files => [.launch, .look task, .report task] ++ givingUp (task + 1) files

/-- The moves of a run that generates one file after the other, from a task on: each task goes from
its launch to its end before the next one is launched. -/
def inOrder (g : Graph) : Cancellation → Nat → List RequestedFile → List Move
  | _, _, [] => []
  | c, task, file :: files =>
    if c.isDue then .interrupt :: givingUp task (file :: files)
    else [.launch, .look task, .generate task, .report task] ++
      if (generateFile g file).isOk then inOrder g (c.past 1) (task + 1) files
      else givingUp (task + 1) files

/-- A run whose files are all there was not interrupted. -/
theorem interrupt_not_mem_inOrder {g : Graph} {c : Cancellation} {files : List RequestedFile}
    {outputs : List FileOutput} (task : Nat) (h : (generateAll g c files).2 = .ok outputs) :
    .interrupt ∉ inOrder g c task files := by
  obtain ⟨hlasts, hall⟩ := generateAll_eq_ok_iff.1 h
  clear h
  induction hall generalizing c task with
  | nil => simp [inOrder]
  | cons hfile _ ih =>
    obtain ⟨hgoes, hrest⟩ := Cancellation.lasts_succ.1 hlasts
    simp [inOrder, hgoes, hfile, Except.isOk, Except.toBool, ih _ hrest]

namespace Pool

variable {g : Graph} {files : List RequestedFile} {limit : Nat} {pool : Pool}
  {done : List Phase} {rest : List RequestedFile}

theorem isCancelled_eq_false :
    pool.isCancelled = false ↔ pool.interrupted = false ∧ pool.problem? = none := by
  simp [isCancelled]

theorem run_append (first second : List Move) :
    pool.run g files limit (first ++ second) =
      (pool.run g files limit first).bind fun now => now.run g files limit second := by
  simp [run, List.foldlM_append]

/-- The tasks before a place have finished, and those from it on are waiting. -/
structure Between (pool : Pool) (done : List Phase) (rest : List RequestedFile) : Prop where
  phases : pool.phases = done ++ rest.map fun _ => .waiting
  finished : ∀ phase ∈ done, ∃ problem?, phase = .finished problem?

theorem Between.active (h : pool.Between done rest) : pool.active = 0 := by
  rw [Pool.active, h.phases, List.countP_eq_zero]
  intro phase hphase
  rcases List.mem_append.1 hphase with hdone | hrest
  · obtain ⟨problem?, rfl⟩ := h.finished phase hdone
    simp [Phase.isActive]
  · obtain ⟨_, _, rfl⟩ := List.mem_map.1 hrest
    simp [Phase.isActive]

theorem Between.findIdx {file : RequestedFile} (h : pool.Between done (file :: rest)) :
    pool.phases.findIdx? Phase.isWaiting = some done.length := by
  have hnone : done.findIdx? Phase.isWaiting = none := by
    rw [List.findIdx?_eq_none_iff]
    intro phase hphase
    obtain ⟨problem?, rfl⟩ := h.finished phase hphase
    rfl
  rw [h.phases, List.findIdx?_append, hnone]
  simp [List.findIdx?_cons, Phase.isWaiting]

theorem Between.stepsLeft (h : pool.Between done []) : pool.stepsLeft = 0 := by
  rw [stepsLeft_eq_zero_iff, h.phases]
  intro phase hphase
  simp only [List.map_nil, List.append_nil] at hphase
  exact h.finished phase hphase

theorem run_cons (move : Move) (schedule : List Move) :
    pool.run g files limit (move :: schedule) =
      (pool.step g files limit move).bind fun moved => moved.run g files limit schedule :=
  rfl

theorem Between.launch {file : RequestedFile} (h : pool.Between done (file :: rest))
    (hlimit : 0 < limit) :
    pool.step g files limit .launch =
      some { pool with phases := done ++ .started :: rest.map fun _ => .waiting } := by
  simp only [step, h.findIdx, h.active, hlimit, ↓reduceIte, moveOn]
  rw [h.phases]
  simp

theorem Between.close {file : RequestedFile} {moved : Pool} {problem? : Option Problem}
    (h : pool.Between done (file :: rest))
    (hmoved : moved.phases = done ++ .finished problem? :: rest.map fun _ => .waiting) :
    moved.Between (done ++ [.finished problem?]) rest where
  phases := by rw [hmoved, List.append_assoc, List.singleton_append]
  finished := by
    intro phase hphase
    rcases List.mem_append.1 hphase with hdone | hlast
    · exact h.finished phase hdone
    · exact ⟨problem?, List.mem_singleton.1 hlast⟩

/-- The next task of a cancelled pool gives up. -/
theorem Between.giveUp {file : RequestedFile} (h : pool.Between done (file :: rest))
    (hlimit : 0 < limit) (hcancelled : pool.isCancelled = true) :
    ∃ moved, pool.run g files limit [.launch, .look done.length, .report done.length] =
        some moved ∧
      moved.Between (done ++ [.finished (some .generationCancelled)]) rest ∧
      moved.events = pool.events ∧
      moved.problem? = pool.problem?.or (some .generationCancelled) := by
  have hlook := isCancelled_eq_true.1 hcancelled
  have hrun : pool.run g files limit [.launch, .look done.length, .report done.length] =
      some { pool with
        phases := done ++ .finished (some .generationCancelled) :: rest.map fun _ => .waiting
        problem? := pool.problem?.or (some .generationCancelled) } := by
    rw [run_cons, h.launch hlimit]
    simp [run, step, isCancelled, hlook, moveOn, conclude]
  exact ⟨_, hrun, h.close rfl, rfl, rfl⟩

theorem Between.fail {file : RequestedFile} {failure : Failure}
    (h : pool.Between done (file :: rest)) (hlimit : 0 < limit)
    (hcancelled : pool.isCancelled = false) (hfile : files[done.length]? = some file)
    (hfailure : generateFile g file = .error failure) :
    ∃ moved, pool.run g files limit
        [.launch, .look done.length, .generate done.length, .report done.length] = some moved ∧
      moved.Between (done ++ [.finished (some (.generating failure))]) rest ∧
      moved.events = pool.events ∧ moved.problem? = some (.generating failure) := by
  obtain ⟨hgoes, hnone⟩ := isCancelled_eq_false.1 hcancelled
  have hrun : pool.run g files limit
      [.launch, .look done.length, .generate done.length, .report done.length] =
      some { pool with
        phases := done ++ .finished (some (.generating failure)) :: rest.map fun _ => .waiting
        problem? := some (.generating failure) } := by
    rw [run_cons, h.launch hlimit]
    simp [run, step, isCancelled, hgoes, hnone, moveOn, conclude, hfile, hfailure]
  exact ⟨_, hrun, h.close rfl, rfl, rfl⟩

theorem Between.succeed {file : RequestedFile} {output : FileOutput}
    {stored places : List (Option FileOutput)}
    (h : pool.Between done (file :: rest)) (hlimit : 0 < limit)
    (hcancelled : pool.isCancelled = false) (hfile : files[done.length]? = some file)
    (hplaces : pool.outputs = stored ++ none :: places) (hstored : stored.length = done.length)
    (houtput : generateFile g file = .ok output) :
    ∃ moved, pool.run g files limit
        [.launch, .look done.length, .generate done.length, .report done.length] = some moved ∧
      moved.Between (done ++ [.finished none]) rest ∧ moved.isCancelled = false ∧
      moved.outputs = stored ++ some output :: places ∧
      moved.events = pool.events ++
        [.generated output.filename output.source.utf8ByteSize output.usedImports.length] := by
  obtain ⟨hgoes, hnone⟩ := isCancelled_eq_false.1 hcancelled
  have hset : pool.outputs.set done.length (some output) = stored ++ some output :: places := by
    rw [hplaces, ← hstored]
    simp
  have hrun : pool.run g files limit
      [.launch, .look done.length, .generate done.length, .report done.length] =
      some { pool with
        phases := done ++ .finished none :: rest.map fun _ => .waiting
        outputs := stored ++ some output :: places
        events := pool.events ++
          [.generated output.filename output.source.utf8ByteSize
            output.usedImports.length] } := by
    rw [run_cons, h.launch hlimit]
    simp [run, step, isCancelled, hgoes, hnone, moveOn, conclude, store, hfile, houtput, hset]
  exact ⟨_, hrun, h.close rfl, hcancelled, rfl, rfl⟩

/-- In a cancelled pool the remaining tasks give up, one after the other. -/
theorem Between.run_cancelled (h : pool.Between done rest) (hlimit : 0 < limit)
    (hcancelled : pool.isCancelled = true) :
    ∃ last, pool.run g files limit (givingUp done.length rest) = some last ∧
      last.stepsLeft = 0 ∧ last.events = pool.events ∧
      last.problem? = pool.problem?.or
        (if rest.isEmpty then none else some .generationCancelled) := by
  induction rest generalizing pool done with
  | nil => exact ⟨pool, rfl, h.stepsLeft, rfl, by simp⟩
  | cons file rest ih =>
    obtain ⟨moved, hround, hbetween, hevents, hproblem⟩ := h.giveUp hlimit hcancelled
    have hstill : moved.isCancelled = true := by simp [isCancelled, hproblem]
    obtain ⟨last, hlast, hsteps, hkept, hfirst⟩ := ih hbetween hstill
    refine ⟨last, ?_, hsteps, hkept.trans hevents, ?_⟩
    · rw [List.length_append] at hlast
      rw [givingUp, run_append, hround]
      exact hlast
    · rw [hfirst, hproblem]
      cases pool.problem? <;> simp

/-- In a pool that is interrupted the remaining tasks give up as well, and there is at least one. -/
theorem Between.run_interrupted {file : RequestedFile} (h : pool.Between done (file :: rest))
    (hlimit : 0 < limit) (hcancelled : pool.isCancelled = false) :
    ∃ last, pool.run g files limit (.interrupt :: givingUp done.length (file :: rest)) =
        some last ∧
      last.events = pool.events ∧ last.result? = some (.error .generationCancelled) := by
  obtain ⟨-, hnone⟩ := isCancelled_eq_false.1 hcancelled
  have hbetween : ({ pool with interrupted := true } : Pool).Between done (file :: rest) :=
    ⟨h.phases, h.finished⟩
  obtain ⟨last, hlast, hsteps, hevents, hproblem⟩ := hbetween.run_cancelled hlimit rfl
  refine ⟨last, hlast, hevents, ?_⟩
  have hfirst : last.problem? = some .generationCancelled := by
    rw [hproblem, hnone]
    rfl
  simp [result?, all_isFinished hsteps, hfirst]

/-- In a pool that is not cancelled the remaining tasks generate their files up to the first that
fails or is cancelled. -/
theorem Between.run_generateAll {c : Cancellation} {stored : List FileOutput}
    (h : pool.Between done rest) (hlimit : 0 < limit) (hcancelled : pool.isCancelled = false)
    (hfiles : ∀ task, files[done.length + task]? = rest[task]?)
    (hplaces : pool.outputs = stored.map some ++ rest.map fun _ => none)
    (hstored : stored.length = done.length) :
    ∃ last, pool.run g files limit (inOrder g c done.length rest) = some last ∧
      last.events = pool.events ++ (generateAll g c rest).1 ∧
      last.result? = some ((generateAll g c rest).2.map (stored ++ ·)) := by
  induction rest generalizing pool c done stored with
  | nil =>
    obtain ⟨-, hnone⟩ := isCancelled_eq_false.1 hcancelled
    have hall := all_isFinished h.stepsLeft
    have hoptions : pool.outputs.mapM id = some stored := by
      rw [hplaces]
      apply mapM_id_eq_some
      simp [List.forall₂_map_left_iff, List.forall₂_same]
    refine ⟨pool, rfl, (List.append_nil _).symm, ?_⟩
    simp [result?, hall, hnone, hoptions, generateAll, Except.map]
  | cons file rest ih =>
    have hfile : files[done.length]? = some file := hfiles 0
    cases hdue : c.isDue with
    | true =>
      obtain ⟨last, hlast, hevents, hresult⟩ := h.run_interrupted hlimit hcancelled
      refine ⟨last, ?_, ?_, ?_⟩
      · rw [inOrder, if_pos hdue]
        exact hlast
      · simp [generateAll, hdue, hevents]
      · simp [generateAll, hdue, hresult, Except.map]
    | false =>
      cases hresult : generateFile g file with
      | error failure =>
        obtain ⟨moved, hround, hbetween, hevents, hproblem⟩ :=
          h.fail hlimit hcancelled hfile hresult
        have hstops : moved.isCancelled = true := by simp [isCancelled, hproblem]
        obtain ⟨last, hlast, hsteps, hkept, hfirst⟩ := hbetween.run_cancelled hlimit hstops
        refine ⟨last, ?_, ?_, ?_⟩
        · rw [List.length_append] at hlast
          rw [inOrder, hdue, hresult, if_neg Bool.false_ne_true, run_append, hround]
          exact hlast
        · simp [hkept, hevents, generateAll, hdue, hresult]
        · rw [hproblem, Option.some_or] at hfirst
          simp [result?, all_isFinished hsteps, hfirst, generateAll, hdue, hresult, Except.map]
      | ok output =>
        have hlength : (stored.map some).length = done.length := by rw [List.length_map, hstored]
        obtain ⟨moved, hround, hbetween, hgoes, houtputs, hevents⟩ :=
          h.succeed hlimit hcancelled hfile hplaces hlength hresult
        have hrest : ∀ task,
            files[(done ++ [Phase.finished none]).length + task]? = rest[task]? := by
          intro task
          have hshift := hfiles (task + 1)
          rw [List.length_append, List.length_singleton, Nat.add_right_comm]
          exact hshift
        have hnow : moved.outputs = (stored ++ [output]).map some ++ rest.map fun _ => none := by
          simp [houtputs]
        obtain ⟨last, hlast, hlater, hend⟩ :=
          ih (c := c.past 1) hbetween hgoes hrest hnow (by simp [hstored])
        refine ⟨last, ?_, ?_, ?_⟩
        · rw [List.length_append] at hlast
          rw [inOrder, hdue, hresult, if_neg Bool.false_ne_true, run_append, hround]
          exact hlast
        · simp [hlater, hevents, generateAll, hdue, hresult]
        · have hall : (generateAll g c (file :: rest)).2 =
              (generateAll g (c.past 1) rest).2.map (output :: ·) := by
            simp [generateAll, hdue, hresult]
          rw [hend, hall]
          cases (generateAll g (c.past 1) rest).2 with
          | error problem => rfl
          | ok outputs => simp [Except.map]

theorem between_start (files : List RequestedFile) : (start files).Between [] files :=
  ⟨rfl, by simp⟩

end Pool

/-- In order, the pool generates files as a run does that knows no pool. -/
theorem run_inOrder {limit : Nat} (hlimit : 0 < limit) (g : Graph) (c : Cancellation)
    (files : List RequestedFile) :
    ∃ last, (Pool.start files).run g files limit (inOrder g c 0 files) = some last ∧
      last.events = (generateAll g c files).1 ∧
      last.result? = some (generateAll g c files).2 := by
  have hplaces : (Pool.start files).outputs = ([] : List FileOutput).map some ++
      files.map fun _ => none := rfl
  have hfiles : ∀ task, files[([] : List Phase).length + task]? = files[task]? := by simp
  obtain ⟨last, hlast, hevents, hresult⟩ :=
    (Pool.between_start files).run_generateAll hlimit rfl hfiles hplaces rfl
  refine ⟨last, hlast, hevents, ?_⟩
  rw [hresult]
  cases (generateAll g c files).2 with
  | error problem => rfl
  | ok outputs => rfl

/-- A run is a run of its tasks: some schedule leads to all that it leaves behind, wherever the run
is cancelled. -/
theorem exists_schedule_of_run (settings : Settings) {processors : Nat} (h : 0 < processors)
    (c : Cancellation) (sink : Sink) (request : Request) :
    ∃ schedule, scheduledRun settings processors schedule (c.past request.files.length) sink
      request = some (run settings c sink request) := by
  cases hg : Graph.ofNodes request.nodes with
  | error failure =>
    refine ⟨[], ?_⟩
    simp [scheduledRun, scheduledOutputs, run, requestOutputs, hg, finish]
  | ok g =>
    obtain ⟨last, hlast, hevents, hresult⟩ :=
      run_inOrder (taskLimit_pos h) g c request.files
    refine ⟨inOrder g c 0 request.files, ?_⟩
    rw [scheduledRun, scheduledOutputs_eq_some hg hlast hresult, hevents]
    cases hall : (generateAll g c request.files).2 with
    | error problem => simp [run, requestOutputs, hg, hall, Except.map, finish]
    | ok outputs =>
      have hgoes := interrupt_not_mem_inOrder 0 hall
      simp [run, requestOutputs, hg, hall, hgoes]

end SchemaBindings.Compile
