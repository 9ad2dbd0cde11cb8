import SchemaBindings.Proofs.Text.Reading
import SchemaBindings.Settings.Parameters

namespace SchemaBindings

open SchemaBindings.Text SchemaBindings.Outcome

/-- One setting and its value. -/
inductive Setting where
  | outDir (value : String)
  | suffix (value : String)
  | workers (value : Int)
  | validate (value : Bool)
  deriving DecidableEq, Repr

namespace Setting

def outDir? : Setting → Option String
  | outDir value => some value
  | _ => none

def suffix? : Setting → Option String
  | suffix value => some value
  | _ => none

def workers? : Setting → Option Int
  | workers value => some value
  | _ => none

def validate? : Setting → Option Bool
  | validate value => some value
  | _ => none

/-- The last value among settings of one kind. -/
def last? {α : Type} (get? : Setting → Option α) (given : List Setting) : Option α :=
  (given.filterMap get?).getLast?

theorem last?_append {α : Type} (get? : Setting → Option α) (a b : List Setting) :
    last? get? (a ++ b) = (last? get? b).or (last? get? a) := by
  rw [last?, List.filterMap_append, List.getLast?_append]
  rfl

/-- What a parameter says, by its key and its value. -/
inductive Means : String → String → Setting → Prop
  | outDir (value : String) : Means "out" value (outDir value)
  | suffix (value : String) : Means "suffix" value (suffix value)
  | workers {value : String} {n : Int} :
    WritesInteger value.toList n → -(2 ^ 63) ≤ n → n < 2 ^ 63 → Means "workers" value (workers n)
  | validate {value : String} {b : Bool} : WritesFlag value b → Means "validate" value (validate b)

/-- A word that gives a setting: a key, an equality sign, and a value that is not empty. -/
def GivenBy (setting : Setting) (word : String) : Prop :=
  ∃ key value, word = key ++ "=" ++ value ∧ value ≠ "" ∧ Means key value setting

theorem Means.isKeyChar {key value : String} {setting : Setting} (h : Means key value setting) :
    key ≠ "" ∧ ∀ c ∈ key.toList, Settings.isKeyChar c = true := by
  cases h <;> exact ⟨by decide, List.all_eq_true.1 rfl⟩

end Setting

namespace Settings

open Setting

/-- The settings after others were given one after the other. -/
def after (s : Settings) (given : List Setting) : Settings where
  outDir := (last? outDir? given).getD s.outDir
  suffix := (last? suffix? given).getD s.suffix
  workers := (last? workers? given).getD s.workers
  validate := (last? validate? given).getD s.validate

theorem after_append (s : Settings) (a b : List Setting) :
    s.after (a ++ b) = (s.after a).after b := by
  simp only [after, last?_append, Option.getD_or]

/-- What the outcome has to be. -/
def IsValid (s : Settings) : Prop :=
  0 ≤ s.workers ∧ s.outDir ≠ ""

theorem check_eq_ok_iff {s : Settings} : s.check = .ok () ↔ s.IsValid := by
  rw [check, IsValid]
  by_cases hworkers : s.workers < 0
  · simp [hworkers, Int.not_le.2 hworkers]
  · by_cases hdir : s.outDir = ""
    · simp [hworkers, hdir]
    · simp [hworkers, hdir, Int.not_lt.1 hworkers]

theorem assign_eq_ok_iff {s changed : Settings} {key value : String} :
    s.assign key value = .ok changed ↔
      ∃ setting, Means key value setting ∧ changed = s.after [setting] := by
  constructor
  · intro h
    unfold assign at h
    split at h
    · cases h
      exact ⟨_, .outDir value, rfl⟩
    · cases h
      exact ⟨_, .suffix value, rfl⟩
    · split at h
      next n hn =>
        cases h
        obtain ⟨hwrites, hlow, hhigh⟩ := decimalInteger_eq_ok_iff.1 hn
        exact ⟨_, .workers hwrites hlow hhigh, rfl⟩
      next => cases h
    · split at h
      next b hb =>
        cases h
        exact ⟨_, .validate (readFlag?_eq_some_iff.1 hb), rfl⟩
      next => cases h
    · cases h
  · rintro ⟨setting, hmeans, rfl⟩
    cases hmeans with
    | outDir | suffix => rfl
    | workers hwrites hlow hhigh =>
      simp only [assign, decimalInteger_eq_ok_iff.2 ⟨hwrites, hlow, hhigh⟩]
      rfl
    | validate hflag =>
      simp only [assign, readFlag?_eq_some_iff.2 hflag]
      rfl

/-- A word is cut at its first equality sign, since no character of a key is one. -/
theorem splitParameter?_eq_some_iff {word key value : String} :
    splitParameter? word = some (key, value) ↔
      word = key ++ "=" ++ value ∧ value ≠ "" ∧ key ≠ "" ∧
        ∀ c ∈ key.toList, isKeyChar c = true := by
  constructor
  · intro h
    unfold splitParameter? at h
    split at h
    next rest hrest =>
      dsimp only at h
      split at h
      next => cases h
      next hfull =>
        cases h
        simp only [Bool.or_eq_true, List.isEmpty_iff, not_or] at hfull
        have hword : word.toList = word.toList.takeWhile isKeyChar ++ '=' :: rest := by
          rw [← hrest, List.takeWhile_append_dropWhile]
        refine ⟨?_, ?_, ?_, ?_⟩
        · apply String.toList_injective
          simpa using hword
        · simpa using hfull.2
        · simpa using hfull.1
        · intro c hc
          rw [String.toList_ofList] at hc
          exact List.all_eq_true.1 List.all_takeWhile c hc
    next => cases h
  · rintro ⟨rfl, hvalue, hkey, hchars⟩
    have hword : (key ++ "=" ++ value).toList = key.toList ++ '=' :: value.toList := by simp
    have hempty (s : String) (h : s ≠ "") : s.toList.isEmpty = false := by simpa using h
    have hsign : isKeyChar '=' = false := by decide
    rw [splitParameter?, hword, List.takeWhile_append_of_pos hchars,
      List.dropWhile_append_of_pos hchars]
    simp [hsign, hempty key hkey, hempty value hvalue]

theorem assignWord_eq_ok_iff {params word : String} {s changed : Settings} :
    assignWord params s word = .ok changed ↔
      ∃ setting, GivenBy setting word ∧ changed = s.after [setting] := by
  rw [assignWord]
  constructor
  · intro h
    split at h
    next key value hsplit =>
      obtain ⟨hword, hvalue, -⟩ := splitParameter?_eq_some_iff.1 hsplit
      obtain ⟨setting, hmeans, hchanged⟩ := assign_eq_ok_iff.1 h
      exact ⟨setting, ⟨key, value, hword, hvalue, hmeans⟩, hchanged⟩
    next => cases h
  · rintro ⟨setting, ⟨key, value, hword, hvalue, hmeans⟩, hchanged⟩
    have hsplit := splitParameter?_eq_some_iff.2 ⟨hword, hvalue, hmeans.isKeyChar⟩
    rw [hsplit]
    exact assign_eq_ok_iff.2 ⟨setting, hmeans, hchanged⟩

/-- Words succeed together if each of them gives a setting. -/
theorem applyWords_eq_ok_iff {params : String} {words : List String} {s changed : Settings} :
    applyWords params s words = (changed, .ok ()) ↔
      ∃ given, List.Forall₂ GivenBy given words ∧ changed = s.after given := by
  induction words generalizing s with
  | nil =>
    simp only [applyWords, List.forall₂_nil_right_iff, Prod.mk.injEq, and_true]
    constructor
    · rintro rfl
      exact ⟨[], rfl, rfl⟩
    · rintro ⟨_, rfl, rfl⟩
      rfl
  | cons word words ih =>
    rw [applyWords]
    constructor
    · intro h
      split at h
      next next hnext =>
        obtain ⟨setting, hgiven, rfl⟩ := assignWord_eq_ok_iff.1 hnext
        obtain ⟨given, hall, rfl⟩ := ih.1 h
        exact ⟨setting :: given, .cons hgiven hall, (after_append s [setting] given).symm⟩
      next => cases h
    · rintro ⟨_, hall, rfl⟩
      cases hall with
      | @cons setting _ given _ hgiven hall =>
        rw [assignWord_eq_ok_iff.2 ⟨setting, hgiven, rfl⟩]
        exact ih.2 ⟨given, hall, after_append s [setting] given⟩

/-- The same problem, met in another string of parameters. -/
def Problem.within (params : String) : Problem → Problem
  | .malformedParameter token _ => .malformedParameter token params
  | problem => problem

theorem assign_within (params : String) (s : Settings) (key value : String) :
    (s.assign key value).mapError (Problem.within params) = s.assign key value := by
  unfold assign
  split
  · rfl
  · rfl
  · split <;> rfl
  · split <;> rfl
  · rfl

theorem assignWord_within (params : String) (s : Settings) (params' word : String) :
    assignWord params' s word = (assignWord params s word).mapError (Problem.within params') := by
  unfold assignWord
  split
  next => exact (assign_within params' s _ _).symm
  next => rfl

/-- The string that words are taken from is only told of. -/
theorem applyWords_within (params params' : String) (s : Settings) (words : List String) :
    applyWords params' s words =
      (applyWords params s words).map id (Except.mapError (Problem.within params')) := by
  induction words generalizing s with
  | nil => rfl
  | cons word words ih =>
    rw [applyWords, applyWords, assignWord_within params s params']
    cases assignWord params s word with
    | error problem => rfl
    | ok changed => exact ih changed

theorem applyWords_append {params : String} {s changed : Settings} {front : List String}
    (h : applyWords params s front = (changed, .ok ())) (back : List String) :
    applyWords params s (front ++ back) = applyWords params changed back := by
  induction front generalizing s with
  | nil =>
    cases h
    rfl
  | cons word words ih =>
    rw [List.cons_append, applyWords]
    rw [applyWords] at h
    split at h
    next => exact ih h
    next => cases h

theorem applyParameters_of_given {s : Settings} {params : String} {given : List Setting}
    (h : List.Forall₂ GivenBy given (tokens params)) :
    s.applyParameters params = (s.after given, (s.after given).check.mapError .invalid) := by
  rw [← words_eq_tokens] at h
  have hwords : applyWords params s (words params) = (s.after given, .ok ()) :=
    applyWords_eq_ok_iff.2 ⟨given, h, rfl⟩
  rw [applyParameters, hwords]

theorem applyParameters_succeeds_iff {s : Settings} {params : String} :
    (s.applyParameters params).2 = .ok () ↔
      ∃ given, List.Forall₂ GivenBy given (tokens params) ∧ (s.after given).IsValid := by
  constructor
  · intro h
    rw [applyParameters] at h
    rcases hwords : applyWords params s (words params) with ⟨changed, problem | ⟨⟩⟩
    · rw [hwords] at h
      cases h
    · rw [hwords] at h
      obtain ⟨given, hgiven, rfl⟩ := applyWords_eq_ok_iff.1 hwords
      rw [words_eq_tokens] at hgiven
      exact ⟨given, hgiven, check_eq_ok_iff.1 (mapError_eq_ok_iff.1 h)⟩
  · rintro ⟨given, hgiven, hvalid⟩
    rw [applyParameters_of_given hgiven]
    exact mapError_eq_ok_iff.2 (check_eq_ok_iff.2 hvalid)

/-- Parameters that succeed may be applied first and the rest of the string later. Only where a word
of the rest is told of does the whole string show. -/
theorem applyParameters_append {s : Settings} {a : String} (h : (s.applyParameters a).2 = .ok ())
    (b : String) :
    s.applyParameters (a ++ " " ++ b) = ((s.applyParameters a).1.applyParameters b).map id
      (Except.mapError (Problem.within (a ++ " " ++ b))) := by
  obtain ⟨given, hgiven, -⟩ := applyParameters_succeeds_iff.1 h
  have hfront : applyWords (a ++ " " ++ b) s (words a) = (s.after given, .ok ()) :=
    applyWords_eq_ok_iff.2 ⟨given, words_eq_tokens a ▸ hgiven, rfl⟩
  have hsplit : words (a ++ " " ++ b) = words a ++ words b := by
    simp only [words_eq_tokens, tokens_append]
  rw [applyParameters_of_given hgiven, applyParameters, applyParameters, hsplit,
    applyWords_append hfront, applyWords_within b]
  rcases applyWords b (s.after given) (words b) with ⟨changed, problem | ⟨⟩⟩
  · rfl
  · -- the check of the outcome does not name the string
    dsimp only [Prod.map, id, Except.mapError]
    cases changed.check with
    | error reason => rfl
    | ok => rfl

end Settings

end SchemaBindings
