import SchemaBindings.Command.Run
import SchemaBindings.Proofs.Settings.Parameters

namespace SchemaBindings

open SchemaBindings.Text SchemaBindings.Outcome SchemaBindings.Document SchemaBindings.Delivery

namespace Document

/-- What a tree says whatever was there before it. -/
def Says {α : Type} (read : Reader α) (tree : Tree) (value : α) : Prop :=
  tree ≠ .null ∧ ∀ old, read old tree = some value

/-- A reader of one value: null leaves what was there, and nothing else looks at it. -/
structure Replaces {α : Type} (read : Reader α) : Prop where
  null : ∀ old, read old .null = some old
  other : ∀ old old' tree, tree ≠ .null → read old tree = read old' tree

/-- All that a tree can be apart from null. -/
@[elab_as_elim]
theorem Tree.otherThanNull {P : Tree → Prop} (tree : Tree) (h : tree ≠ .null)
    (flag : ∀ b source, P (.scalar (.flag b source)))
    (number : ∀ n source, P (.scalar (.number n source)))
    (special : ∀ x source, P (.scalar (.special x source)))
    (text : ∀ value, P (.scalar (.text value))) (list : ∀ items, P (.list items))
    (record : ∀ members, P (.record members)) : P tree := by
  cases tree with
  | scalar s =>
    cases s with
    | null => exact absurd rfl h
    | flag b source => exact flag b source
    | number n source => exact number n source
    | special x source => exact special x source
    | text value => exact text value
  | list items => exact list items
  | record members => exact record members

theorem Dialect.replaces_text (d : Dialect) : Replaces d.text where
  null _ := rfl
  other _ _ tree h := by
    refine tree.otherThanNull h ?_ ?_ ?_ ?_ ?_ ?_ <;> intros <;> rfl

theorem Dialect.replaces_int64 (d : Dialect) : Replaces d.int64 where
  null _ := rfl
  other _ _ tree h := by
    refine tree.otherThanNull h ?_ ?_ ?_ ?_ ?_ ?_ <;> intros <;> rfl

theorem Dialect.replaces_flag (d : Dialect) : Replaces d.flag where
  null _ := rfl
  other _ _ tree h := by
    refine tree.otherThanNull h ?_ ?_ ?_ ?_ ?_ ?_ <;> intros <;> rfl

theorem Dialect.exists_reader {α : Type} {readers : List (String × Reader α)} {old changed : α}
    {name : String} {tree : Tree} {rest : List (String × Tree)}
    (h : Dialect.yaml.members readers old ((name, tree) :: rest) = some changed) :
    ∃ read, (name, read) ∈ readers ∧ ∃ next, read old tree = some next := by
  rw [Dialect.members] at h
  obtain ⟨⟨key, read⟩, hfind, hrest⟩ := Option.bind_eq_some_iff.1 h
  obtain ⟨next, hnext, -⟩ := Option.bind_eq_some_iff.1 hrest
  have hsame := List.find?_some hfind
  have hname : name = key := eq_of_beq hsame
  subst hname
  exact ⟨read, List.mem_of_find?_eq_some hfind, next, hnext⟩

end Document

namespace Setting

/-- What a member of a file says of a setting. Null says nothing. -/
inductive ToldBy : List Setting → String × Tree → Prop
  | silent {name : String} : name ∈ ["outDir", "suffix", "workers", "validate"] →
    ToldBy [] (name, .null)
  | outDir {tree : Tree} {value : String} :
    Says Dialect.yaml.text tree value → ToldBy [outDir value] ("outDir", tree)
  | suffix {tree : Tree} {value : String} :
    Says Dialect.yaml.text tree value → ToldBy [suffix value] ("suffix", tree)
  | workers {tree : Tree} {n : Int64} :
    Says Dialect.yaml.int64 tree n → ToldBy [workers n.toInt] ("workers", tree)
  | validate {tree : Tree} {b : Bool} :
    Says Dialect.yaml.flag tree b → ToldBy [validate b] ("validate", tree)

/-- What a document says of the settings; one in which nothing is written says nothing. -/
inductive Told : List Setting → Option Tree → Prop
  | nothing : Told [] none
  | null : Told [] (some .null)
  | record {told : List (List Setting)} {members : List (String × Tree)} :
    List.Forall₂ ToldBy told members → Told told.flatten (some (.record members))

/-- What the file at a path says of the settings; no path leads to no file. -/
inductive InFile (tree : FileTree) : List Setting → String → Prop
  | unnamed : InFile tree [] ""
  | named {told : List Setting} {path : String} {bytes : List UInt8} {content : Option Tree} :
    path ≠ "" → tree.read path = .ok bytes → (chars? bytes).bind Yaml.read? = some content →
    Told told content → InFile tree told path

end Setting

namespace Settings

open Setting

/-- The number of workers has the width that a file is read with. -/
def FitsWord (s : Settings) : Prop :=
  ∃ n : Int64, s.workers = n.toInt

theorem FitsWord.after {s : Settings} (hs : s.FitsWord) {told : List Setting}
    {member : String × Tree} (h : ToldBy told member) : (s.after told).FitsWord := by
  cases h with
  | @workers _ n => exact ⟨n, rfl⟩
  | _ => exact hs

/-- What a member says is what reading it changes. -/
theorem reader_of_toldBy {s : Settings} (hs : s.FitsWord) {told : List Setting}
    {member : String × Tree} (h : ToldBy told member) (rest : List (String × Tree)) :
    reader .yaml s (.record (member :: rest)) = reader .yaml (s.after told) (.record rest) := by
  obtain ⟨n, hn⟩ := hs
  cases h with
  | silent hname =>
    simp only [List.mem_cons, List.not_mem_nil, or_false] at hname
    rcases hname with rfl | rfl | rfl | rfl
    · rfl
    · rfl
    · -- null goes through the word that the number is read as, and that has to give it back
      change reader .yaml { s with workers := (Int64.ofInt s.workers).toInt } (.record rest) = _
      rw [hn, Int64.ofInt_toInt, ← hn]
      rfl
    · rfl
  | outDir hsaid =>
    change ((Dialect.yaml.text s.outDir _).map _).bind _ = _
    rw [hsaid.2]
    rfl
  | suffix hsaid =>
    change ((Dialect.yaml.text s.suffix _).map _).bind _ = _
    rw [hsaid.2]
    rfl
  | workers hsaid =>
    change ((Dialect.yaml.int64 (Int64.ofInt s.workers) _).map _).bind _ = _
    rw [hsaid.2]
    rfl
  | validate hsaid =>
    change ((Dialect.yaml.flag s.validate _).map _).bind _ = _
    rw [hsaid.2]
    rfl

theorem exists_toldBy_of_focus {α : Type} {read : Reader α} (hread : Replaces read)
    {get : Settings → α} {set : Settings → α → Settings} {s next : Settings} {name : String}
    {tree : Tree} (h : focus read get set s tree = some next)
    (hname : name ∈ ["outDir", "suffix", "workers", "validate"])
    (hsaid : ∀ value, Says read tree value → ∃ told, ToldBy told (name, tree)) :
    ∃ told, ToldBy told (name, tree) := by
  by_cases hnull : tree = .null
  · exact ⟨[], hnull ▸ .silent hname⟩
  · obtain ⟨value, hvalue, -⟩ := Option.map_eq_some_iff.1 h
    exact hsaid value ⟨hnull, fun other => (hread.other other _ _ hnull).trans hvalue⟩

theorem exists_toldBy {s changed : Settings} {member : String × Tree} {rest : List (String × Tree)}
    (h : reader .yaml s (.record (member :: rest)) = some changed) :
    ∃ told, ToldBy told member := by
  obtain ⟨name, tree⟩ := member
  obtain ⟨read, hmem, next, hnext⟩ := Dialect.exists_reader h
  simp only [List.mem_cons, List.not_mem_nil, or_false, Prod.mk.injEq] at hmem
  rcases hmem with ⟨rfl, rfl⟩ | ⟨rfl, rfl⟩ | ⟨rfl, rfl⟩ | ⟨rfl, rfl⟩
  · exact exists_toldBy_of_focus (Dialect.replaces_text _) hnext (by decide) fun _ hsaid =>
      ⟨_, .outDir hsaid⟩
  · exact exists_toldBy_of_focus (Dialect.replaces_text _) hnext (by decide) fun _ hsaid =>
      ⟨_, .suffix hsaid⟩
  · exact exists_toldBy_of_focus (Dialect.replaces_int64 _) hnext (by decide) fun _ hsaid =>
      ⟨_, .workers hsaid⟩
  · exact exists_toldBy_of_focus (Dialect.replaces_flag _) hnext (by decide) fun _ hsaid =>
      ⟨_, .validate hsaid⟩

/-- Members are read as if what they say were given one after the other. -/
theorem reader_record_iff {s changed : Settings} (hs : s.FitsWord)
    {members : List (String × Tree)} :
    reader .yaml s (.record members) = some changed ↔
      ∃ told, List.Forall₂ ToldBy told members ∧ changed = s.after told.flatten := by
  induction members generalizing s with
  | nil =>
    simp only [List.forall₂_nil_right_iff]
    constructor
    · rintro ⟨⟩
      exact ⟨[], rfl, rfl⟩
    · rintro ⟨_, rfl, rfl⟩
      rfl
  | cons member members ih =>
    constructor
    · intro h
      obtain ⟨told, htold⟩ := exists_toldBy h
      rw [reader_of_toldBy hs htold] at h
      obtain ⟨rest, hall, rfl⟩ := (ih (hs.after htold)).1 h
      exact ⟨told :: rest, .cons htold hall, (after_append s told rest.flatten).symm⟩
    · rintro ⟨_, hall, rfl⟩
      cases hall with
      | @cons told _ rest _ htold hall =>
        rw [reader_of_toldBy hs htold]
        exact (ih (hs.after htold)).2 ⟨rest, hall, after_append s told rest.flatten⟩

theorem reader_iff {changed : Settings} {tree : Tree} :
    reader .yaml standard tree = some changed ↔
      ∃ told, Told told (some tree) ∧ changed = standard.after told := by
  constructor
  · intro h
    cases tree with
    | record members =>
      obtain ⟨told, hall, rfl⟩ := (reader_record_iff ⟨0, rfl⟩).1 h
      exact ⟨told.flatten, .record hall, rfl⟩
    | list => cases h
    | scalar s =>
      cases s with
      | null =>
        cases h
        exact ⟨[], .null, rfl⟩
      | _ => cases h
  · rintro ⟨told, htold, rfl⟩
    cases htold with
    | null => rfl
    | record hall => exact (reader_record_iff ⟨0, rfl⟩).2 ⟨_, hall, rfl⟩

theorem checked_eq_ok_iff {s loaded : Settings} {problem : Invalid → Problem} :
    (s.check.mapError problem).map (fun _ => s) = .ok loaded ↔ loaded = s ∧ s.IsValid := by
  rw [← check_eq_ok_iff]
  cases s.check with
  | error reason => simp [Except.mapError, Except.map]
  | ok => simp [Except.mapError, Except.map, eq_comm]

theorem ofBytes_eq_ok_iff {path : String} {bytes : List UInt8} {loaded : Settings} :
    ofBytes path bytes = .ok loaded ↔
      ∃ content told, (chars? bytes).bind Yaml.read? = some content ∧ Told told content ∧
        loaded = standard.after told ∧ loaded.IsValid := by
  rw [ofBytes]
  rcases hcontent : (chars? bytes).bind Yaml.read? with _ | _ | tree
  · simp
  · dsimp only
    rw [checked_eq_ok_iff]
    constructor
    · rintro ⟨rfl, hvalid⟩
      exact ⟨none, [], rfl, .nothing, rfl, hvalid⟩
    · rintro ⟨_, _, ⟨⟩, ⟨⟩, rfl, hvalid⟩
      exact ⟨rfl, hvalid⟩
  · dsimp only
    constructor
    · intro h
      cases hread : reader .yaml standard tree with
      | none =>
        rw [hread] at h
        cases h
      | some s =>
        rw [hread] at h
        obtain ⟨rfl, hvalid⟩ := checked_eq_ok_iff.1 h
        obtain ⟨told, htold, hloaded⟩ := reader_iff.1 hread
        exact ⟨some tree, told, rfl, htold, hloaded, hvalid⟩
    · rintro ⟨_, told, ⟨⟩, htold, hloaded, hvalid⟩
      rw [reader_iff.2 ⟨told, htold, hloaded⟩]
      exact checked_eq_ok_iff.2 ⟨rfl, hvalid⟩

theorem load_eq_ok_iff {tree : FileTree} {path : String} {loaded : Settings} :
    load tree path = .ok loaded ↔
      ∃ told, InFile tree told path ∧ loaded = standard.after told ∧ loaded.IsValid := by
  constructor
  · intro h
    rw [load] at h
    split at h
    next hpath =>
      cases h
      subst hpath
      exact ⟨[], .unnamed, rfl, by decide, by decide⟩
    next hpath =>
      split at h
      next bytes hbytes =>
        obtain ⟨content, told, hcontent, htold, hloaded⟩ := ofBytes_eq_ok_iff.1 h
        exact ⟨told, .named hpath hbytes hcontent htold, hloaded⟩
      next => cases h
  · rintro ⟨told, hfile, hloaded⟩
    cases hfile with
    | unnamed =>
      obtain ⟨rfl, -⟩ := hloaded
      rfl
    | named hpath hbytes hcontent htold =>
      rw [load, if_neg hpath, hbytes]
      exact ofBytes_eq_ok_iff.2 ⟨_, told, hcontent, htold, hloaded⟩

/-- Every setting is the one that the first layer with such a setting gives last; one that no layer
gives is the standard one. -/
def ComesFrom (s : Settings) (layers : List (List Setting)) : Prop :=
  s.outDir = (layers.findSome? (last? outDir?)).getD standard.outDir ∧
    s.suffix = (layers.findSome? (last? suffix?)).getD standard.suffix ∧
    s.workers = (layers.findSome? (last? workers?)).getD standard.workers ∧
    s.validate = (layers.findSome? (last? validate?)).getD standard.validate

theorem last?_layers {α : Type} (get? : Setting → Option α) (layers : List (List Setting)) :
    last? get? layers.reverse.flatten = layers.findSome? (last? get?) := by
  induction layers with
  | nil => rfl
  | cons layer layers ih =>
    rw [List.reverse_cons, List.flatten_append, last?_append, ih, List.findSome?_cons]
    cases hlayer : last? get? layer with
    | none => simp [hlayer]
    | some value => simp [hlayer]

theorem comesFrom_iff {s : Settings} {layers : List (List Setting)} :
    s.ComesFrom layers ↔ s = standard.after layers.reverse.flatten := by
  rw [ComesFrom, after]
  simp only [last?_layers]
  constructor
  · rintro ⟨hdir, hsuffix, hworkers, hvalidate⟩
    cases s
    simp_all
  · rintro rfl
    exact ⟨rfl, rfl, rfl, rfl⟩

end Settings

namespace Command

open Setting

/-- What flags say of the settings: a directory that has a name, workers if there are any, and that
requests are not to be checked. -/
def Flags.given (f : Flags) : List Setting :=
  (if f.outDir = "" then [] else [.outDir f.outDir])
    ++ (if 0 < f.workers then [.workers f.workers] else [])
    ++ (if f.skipCheck then [.validate false] else [])

theorem Flags.after_given (f : Flags) (s : Settings) :
    s.after f.given = { s with
      outDir := if f.outDir = "" then s.outDir else f.outDir
      workers := if 0 < f.workers then f.workers else s.workers
      validate := s.validate && !f.skipCheck } := by
  have hdir (s : Settings) : s.after (if f.outDir = "" then [] else [.outDir f.outDir]) =
      { s with outDir := if f.outDir = "" then s.outDir else f.outDir } := by
    split <;> rfl
  have hworkers (s : Settings) : s.after (if 0 < f.workers then [.workers f.workers] else []) =
      { s with workers := if 0 < f.workers then f.workers else s.workers } := by
    split <;> rfl
  have hvalidate (s : Settings) : s.after (if f.skipCheck then [.validate false] else []) =
      { s with validate := s.validate && !f.skipCheck } := by
    cases f.skipCheck with
    | true => simp [Settings.after, last?, outDir?, suffix?, workers?, validate?]
    | false => simp [Settings.after, last?]
  rw [Flags.given, Settings.after_append, Settings.after_append, hdir, hworkers, hvalidate]

namespace Invocation

theorem overlay_eq_ok_iff {i : Invocation} {loaded settings : Settings} :
    i.overlay loaded = .ok settings ↔
      ∃ given, List.Forall₂ GivenBy given (tokens i.flags.params) ∧ (loaded.after given).IsValid ∧
        settings = (loaded.after given).after i.flags.given := by
  have hoverlay : i.overlay loaded = .ok settings ↔
      (loaded.applyParameters i.flags.params).2 = .ok () ∧
        settings = (loaded.applyParameters i.flags.params).1.after i.flags.given := by
    rw [overlay, Flags.after_given]
    generalize loaded.applyParameters i.flags.params = applied
    obtain ⟨s, result⟩ := applied
    constructor
    · intro h
      obtain ⟨_, hresult, hsettings⟩ := map_eq_ok_iff.1 h
      exact ⟨mapError_eq_ok_iff.1 hresult, hsettings.symm⟩
    · rintro ⟨hresult, rfl⟩
      exact map_eq_ok_iff.2 ⟨(), mapError_eq_ok_iff.2 hresult, rfl⟩
  rw [hoverlay, Settings.applyParameters_succeeds_iff]
  constructor
  · rintro ⟨⟨given, hgiven, hvalid⟩, rfl⟩
    rw [Settings.applyParameters_of_given hgiven]
    exact ⟨given, hgiven, hvalid, rfl⟩
  · rintro ⟨given, hgiven, hvalid, rfl⟩
    rw [Settings.applyParameters_of_given hgiven]
    exact ⟨⟨given, hgiven, hvalid⟩, rfl⟩

/-- The settings that a command is run with: its flags over its parameters over its file, where the
file alone and the parameters over it are valid. -/
def Settles (i : Invocation) (tree : FileTree) (settings : Settings) : Prop :=
  ∃ told given, InFile tree told i.flags.config ∧ (Settings.standard.after told).IsValid ∧
    List.Forall₂ GivenBy given (tokens i.flags.params) ∧
    ((Settings.standard.after told).after given).IsValid ∧
    settings.ComesFrom [i.flags.given, given, told]

theorem settle_eq_ok_iff {i : Invocation} {tree : FileTree} {settings : Settings}
    {format : Document.Format} :
    i.settle (Settings.load tree i.flags.config) = .ok (settings, format) ↔
      i.format = .ok format ∧ i.Settles tree settings := by
  have hlayers (told given : List Setting) :
      settings.ComesFrom [i.flags.given, given, told] ↔
        settings = ((Settings.standard.after told).after given).after i.flags.given := by
    rw [Settings.comesFrom_iff, ← Settings.after_append, ← Settings.after_append]
    simp
  rw [settle]
  simp only [bind_eq_ok_iff, mapError_eq_ok_iff, Settings.load_eq_ok_iff, overlay_eq_ok_iff]
  constructor
  · rintro ⟨_, ⟨told, hfile, rfl, hloaded⟩, _, ⟨given, hgiven, hvalid, rfl⟩, _, hformat, ⟨⟩⟩
    exact ⟨hformat, told, given, hfile, hloaded, hgiven, hvalid, (hlayers told given).2 rfl⟩
  · rintro ⟨hformat, told, given, hfile, hloaded, hgiven, hvalid, hfrom⟩
    exact ⟨_, ⟨told, hfile, rfl, hloaded⟩, settings,
      ⟨given, hgiven, hvalid, (hlayers told given).1 hfrom⟩, format, hformat, rfl⟩

theorem settles_of_prepare {i : Invocation} {tree : FileTree} {input : List UInt8}
    {settings : Settings} {d : Document} (h : prepare tree input i = .ok (settings, d)) :
    i.Settles tree settings := by
  obtain ⟨⟨settled, format⟩, hsettle, hrest⟩ := bind_eq_ok_iff.1 h
  have hsame : settled = settings := by
    dsimp only at hrest
    split at hrest
    all_goals
      obtain ⟨bytes, -, hbytes⟩ := bind_eq_ok_iff.1 hrest
      obtain ⟨read, -, hread⟩ := bind_eq_ok_iff.1 hbytes
      cases hread
      rfl
  exact hsame ▸ (settle_eq_ok_iff.1 hsettle).2

end Invocation

/-- Parameters succeed if every word of them gives a setting and the outcome is valid, whatever was
given in between. Every setting is the one given last, so that a string may be cut behind parameters
that succeed. A run has its settings from the flags, then from the parameters, then from the file,
and the rest are the standard ones. -/
theorem settings_given_last_win (s : Settings) (a b : String) :
    ((s.applyParameters a).2 = .ok () ↔
        ∃ given, List.Forall₂ GivenBy given (tokens a) ∧ (s.after given).IsValid) ∧
      (∀ given, List.Forall₂ GivenBy given (tokens a) → (s.applyParameters a).1 = s.after given) ∧
      ((s.applyParameters a).2 = .ok () →
        s.applyParameters (a ++ " " ++ b) = ((s.applyParameters a).1.applyParameters b).map id
          (Except.mapError (Settings.Problem.within (a ++ " " ++ b)))) ∧
      ∀ (tree : FileTree) (i : Invocation) (settings : Settings),
        (∀ format, i.settle (Settings.load tree i.flags.config) = .ok (settings, format) ↔
          i.format = .ok format ∧ i.Settles tree settings) ∧
        ∀ arguments input d, parse arguments = .ok i → prepare tree input i = .ok (settings, d) →
          i.Settles tree settings ∧
            let o := Compile.runDocument settings .never (.directory settings.outDir tree) d
            run tree input arguments =
              ⟨i.lines o.events, treeOf tree o.sink, o.result.mapError .compile⟩ := by
  refine ⟨Settings.applyParameters_succeeds_iff, ?_, ?_, ?_⟩
  · intro given hgiven
    rw [Settings.applyParameters_of_given hgiven]
  · exact fun h => Settings.applyParameters_append h b
  · intro tree i settings
    refine ⟨fun format => Invocation.settle_eq_ok_iff, ?_⟩
    intro arguments input d hparse hprepare
    refine ⟨Invocation.settles_of_prepare hprepare, ?_⟩
    rw [run, hparse]
    dsimp only
    rw [hprepare]

/-- A directory with a file of settings in it. -/
def shelfFiles : FileTree :=
  ⟨[(⟨false, ["shelf.yaml"]⟩, "workers: 3\nsuffix: .mjs\n".toUTF8.toList)], []⟩

/-- A command whose flags give the directory, its parameters the workers and its file the suffix. -/
def shelfCommand : Invocation :=
  ⟨{ Flags.standard with
      outDir := "gen"
      config := "shelf.yaml"
      params := "workers=-1 workers=2 out=a=b" }, none⟩

/-- A number of workers that is not valid is overridden, and a value may have an equality sign. -/
theorem settings_given_last_win_shelf :
    Settings.standard.applyParameters "workers=-1 workers=2 out=a=b" =
        (⟨"a=b", ".js", 2, true⟩, .ok ()) ∧
      Settings.standard.applyParameters ("workers=-1 workers=2 out=a=b" ++ " " ++ "suffix=") =
        (⟨"a=b", ".js", 2, true⟩, .error
          (.malformedParameter "suffix=" ("workers=-1 workers=2 out=a=b" ++ " " ++ "suffix="))) ∧
      parse ["-o", "gen", "-config", "shelf.yaml", "-param", "workers=-1 workers=2 out=a=b"] =
        .ok shelfCommand ∧
      ∃ d, prepare shelfFiles [0x7b, 0x7d] shelfCommand = .ok (⟨"gen", ".mjs", 2, true⟩, d) ∧
        shelfCommand.Settles shelfFiles ⟨"gen", ".mjs", 2, true⟩ := by
  obtain ⟨-, -, hcut, hrun⟩ :=
    settings_given_last_win Settings.standard "workers=-1 workers=2 out=a=b" "suffix="
  have happlied : Settings.standard.applyParameters "workers=-1 workers=2 out=a=b" =
      (⟨"a=b", ".js", 2, true⟩, .ok ()) := rfl
  have hparse : parse ["-o", "gen", "-config", "shelf.yaml", "-param",
      "workers=-1 workers=2 out=a=b"] = .ok shelfCommand := rfl
  have hsettings : (prepare shelfFiles [0x7b, 0x7d] shelfCommand).toOption.map Prod.fst =
      some ⟨"gen", ".mjs", 2, true⟩ := by decide +kernel
  refine ⟨happlied, ?_, hparse, ?_⟩
  · rw [hcut (congrArg Prod.snd happlied), happlied]
    rfl
  · cases hprepare : prepare shelfFiles [0x7b, 0x7d] shelfCommand with
    | error problem =>
      rw [hprepare] at hsettings
      cases hsettings
    | ok prepared =>
      obtain ⟨settings, d⟩ := prepared
      rw [hprepare] at hsettings
      cases hsettings
      exact ⟨d, rfl, ((hrun _ _ _).2 _ _ d hparse hprepare).1⟩

end Command

end SchemaBindings
