import Mathlib.Data.List.Infix
import SchemaBindings.Delivery.Sink

namespace SchemaBindings.Delivery

theorem cutSlashes_ne_nil (cs : List Char) : cutSlashes cs ≠ [] := by
  cases cs with
  | nil => simp [cutSlashes]
  | cons c cs =>
    rw [cutSlashes]
    split_ifs
    · simp
    · split <;> simp

theorem intercalate_cutSlashes (cs : List Char) : ['/'].intercalate (cutSlashes cs) = cs := by
  induction cs with
  | nil => rfl
  | cons c cs ih =>
    rw [cutSlashes]
    cases hcut : cutSlashes cs with
    | nil => exact absurd hcut (cutSlashes_ne_nil cs)
    | cons piece pieces =>
      rw [hcut] at ih
      split_ifs with hc
      · rw [List.intercalate_cons_cons, ih, hc]
        rfl
      · cases pieces with
        | nil =>
          rw [List.intercalate_singleton] at ih ⊢
          rw [ih]
        | cons next pieces =>
          rw [List.intercalate_cons_cons] at ih ⊢
          rw [← ih]
          rfl

theorem slash_not_mem_cutSlashes (cs : List Char) : ∀ piece ∈ cutSlashes cs, '/' ∉ piece := by
  induction cs with
  | nil => simp [cutSlashes]
  | cons c cs ih =>
    rw [cutSlashes]
    cases hcut : cutSlashes cs with
    | nil => exact absurd hcut (cutSlashes_ne_nil cs)
    | cons piece pieces =>
      rw [hcut] at ih
      have hpiece := ih piece List.mem_cons_self
      have hpieces := fun p hp => ih p (List.mem_cons_of_mem piece hp)
      split_ifs with hc
      · simpa using ih
      · intro p hp
        rcases List.mem_cons.1 hp with rfl | hp
        · simpa [eq_comm, hc] using hpiece
        · exact hpieces p hp

/-- The components of a text are what stands between its slashes. -/
theorem components_spec (s : String) :
    "/".intercalate (components s) = s ∧ ∀ c ∈ components s, '/' ∉ c.toList := by
  constructor
  · rw [← String.toList_inj, String.toList_intercalate, components, List.map_map]
    have hmap : (cutSlashes s.toList).map (String.toList ∘ String.ofList) =
        cutSlashes s.toList := by
      simp [Function.comp_def]
    rw [hmap]
    exact intercalate_cutSlashes s.toList
  · intro c hc
    obtain ⟨piece, hpiece, rfl⟩ := List.mem_map.1 hc
    rw [String.toList_ofList]
    exact slash_not_mem_cutSlashes s.toList piece hpiece

/-- A component that leads one level down. -/
def isOrdinary (c : String) : Bool :=
  c != "" && c != "." && c != ".."

/-- How many levels above the place where they start the components lead. -/
def climb : List String → Nat
  | [] => 0
  | c :: cs => if c = ".." then climb cs + 1 else if isOrdinary c then climb cs - 1 else climb cs

/-- The components that are left of a path: those that no later step to a parent takes away. -/
def remaining : List String → List String
  | [] => []
  | c :: cs => if isOrdinary c && climb cs == 0 then c :: remaining cs else remaining cs

/-- No prefix of the components has more steps to a parent than components that lead down. -/
def StaysInside (cs : List String) : Prop :=
  ∀ front, front <+: cs → front.count ".." ≤ front.countP isOrdinary

theorem climb_le_iff (cs : List String) (k : Nat) :
    climb cs ≤ k ↔ ∀ front, front <+: cs → front.count ".." ≤ front.countP isOrdinary + k := by
  induction cs generalizing k with
  | nil => simp [climb]
  | cons c cs ih =>
    have hfronts : (∀ front, front <+: c :: cs → front.count ".." ≤ front.countP isOrdinary + k) ↔
        ∀ front, front <+: cs → (c :: front).count ".." ≤ (c :: front).countP isOrdinary + k := by
      constructor
      · intro h front hfront
        exact h _ ((List.prefix_cons_inj c).2 hfront)
      · intro h front hfront
        rcases List.prefix_cons_iff.1 hfront with rfl | ⟨rest, rfl, hrest⟩
        · simp
        · exact h rest hrest
    rw [hfronts, climb]
    split_ifs with hup hdown
    · subst hup
      have hflat : isOrdinary ".." = false := rfl
      cases k with
      | zero =>
        constructor
        · intro h
          omega
        · intro h
          have h0 := h [] (List.nil_prefix)
          simp [hflat] at h0
      | succ k =>
        rw [Nat.add_le_add_iff_right, ih]
        simp only [List.count_cons_self, List.countP_cons, hflat]
        refine forall₂_congr fun front _ => ?_
        simp only [Bool.false_eq_true, if_false]
        omega
    · have hk : climb cs - 1 ≤ k ↔ climb cs ≤ k + 1 := by omega
      rw [hk, ih]
      refine forall₂_congr fun front _ => ?_
      simp only [List.count_cons_of_ne hup, List.countP_cons, hdown, if_true]
      omega
    · rw [ih]
      refine forall₂_congr fun front _ => ?_
      simp only [List.count_cons_of_ne hup, List.countP_cons, hdown]
      rfl

theorem climb_eq_zero_iff (cs : List String) : climb cs = 0 ↔ StaysInside cs := by
  rw [← Nat.le_zero, climb_le_iff]
  rfl

theorem isOrdinary_of_mem_remaining (cs : List String) :
    ∀ c ∈ remaining cs, isOrdinary c = true := by
  induction cs with
  | nil => simp [remaining]
  | cons c cs ih =>
    rw [remaining]
    split_ifs with h
    · rw [Bool.and_eq_true] at h
      intro d hd
      rcases List.mem_cons.1 hd with rfl | hd
      · exact h.1
      · exact ih d hd
    · exact ih

namespace Path

/-- The path that leads further down from a directory. -/
def below (dir : Path) (down : List String) : Path :=
  { dir with parts := dir.parts ++ down }

/-- The path is the directory, or goes down from it. -/
def LiesIn (p dir : Path) : Prop :=
  ∃ down, (∀ c ∈ down, isOrdinary c = true) ∧ p = dir.below down

theorem below_below (dir : Path) (down more : List String) :
    (dir.below down).below more = dir.below (down ++ more) := by
  simp [below]

theorem below_nil (dir : Path) : dir.below [] = dir := by
  simp [below]

theorem step_ordinary (p : Path) {c : String} (h : isOrdinary c = true) :
    p.step c = p.below [c] := by
  simp only [isOrdinary, Bool.and_eq_true, bne_iff_ne, ne_eq] at h
  simp [step, h, below]

theorem step_neutral (p : Path) {c : String} (h : isOrdinary c = false) (hup : c ≠ "..") :
    p.step c = p := by
  have hc : c = "" ∨ c = "." := by
    simp only [isOrdinary, Bool.and_eq_false_iff, bne_eq_false_iff_eq] at h
    rcases h with (h | h) | h
    · exact Or.inl h
    · exact Or.inr h
    · exact absurd h hup
  simp [step, hc]

theorem step_parent (dir : Path) (down : List String) {last : String} (h : last ≠ "..") :
    (dir.below (down ++ [last])).step ".." = dir.below down := by
  simp [step, below, h]

theorem step_above (dir : Path) (down : List String) :
    (dir.below (down ++ [".."])).step ".." = dir.below (down ++ ["..", ".."]) := by
  simp [step, below]

/-- Components that climb as far as some directories lead down take just these away, and put in
their place what is left of them. -/
theorem foldl_step (cs : List String) (dir : Path) (down : List String)
    (hdown : ∀ c ∈ down, isOrdinary c = true) (hclimb : climb cs = down.length) :
    cs.foldl step (dir.below down) = dir.below (remaining cs) := by
  induction cs generalizing dir down with
  | nil =>
    have hnil : down = [] := List.length_eq_zero_iff.1 hclimb.symm
    rw [hnil]
    rfl
  | cons c cs ih =>
    rw [List.foldl_cons]
    rw [climb] at hclimb
    split_ifs at hclimb with hup hord
    · -- the last directory is taken away
      subst hup
      have hne : down ≠ [] := by
        intro h
        simp [h] at hclimb
      obtain ⟨front, last, rfl⟩ := List.eq_nil_or_concat' down |>.resolve_left hne
      have hlast : last ≠ ".." := by
        rintro rfl
        have h := hdown ".." (by simp)
        cases h
      rw [step_parent dir front hlast]
      have hlength : climb cs = front.length := by
        rw [List.length_append, List.length_singleton] at hclimb
        omega
      rw [ih dir front (fun d hd => hdown d (List.mem_append_left _ hd)) hlength]
      rfl
    · rw [step_ordinary _ hord, below_below]
      by_cases hzero : climb cs = 0
      · -- the component stays, and the rest starts from it
        have hnil : down = [] := by
          apply List.length_eq_zero_iff.1
          omega
        have hrest := ih (dir.below [c]) [] (by simp) hzero
        rw [below_nil, below_below] at hrest
        rw [hnil, List.nil_append, hrest, remaining, if_pos (by simp [hord, hzero])]
        rfl
      · -- the component is one of those that the rest takes away
        have hlength : climb cs = (down ++ [c]).length := by
          rw [List.length_append, List.length_singleton]
          omega
        have hall : ∀ d ∈ down ++ [c], isOrdinary d = true := by
          intro d hd
          rcases List.mem_append.1 hd with hd | hd
          · exact hdown d hd
          · rw [List.mem_singleton.1 hd]
            exact hord
        rw [ih dir (down ++ [c]) hall hlength, remaining, if_neg (by simp [hzero])]
    · have hflat : isOrdinary c = false := by simpa using hord
      rw [step_neutral _ hflat hup, ih dir down hdown hclimb, remaining, if_neg (by simp [hflat])]

/-- Once a relative path leads above its start, every further component leaves it there. -/
theorem head?_foldl_step (cs : List String) (p : Path) (h : p.parts.head? = some "..") :
    (cs.foldl step p).parts.head? = some ".." := by
  induction cs generalizing p with
  | nil => exact h
  | cons c cs ih =>
    refine ih (p.step c) ?_
    obtain ⟨dir, more, hdir, rfl⟩ : ∃ dir more, dir.parts = [".."] ∧ p = below dir more := by
      obtain ⟨rooted, parts⟩ := p
      cases parts with
      | nil => simp at h
      | cons first more =>
        obtain rfl : first = ".." := by simpa using h
        exact ⟨⟨rooted, [".."]⟩, more, rfl, rfl⟩
    have hbelow : ∀ down, (dir.below down).parts.head? = some ".." := by
      simp [below, hdir]
    by_cases hup : c = ".."
    · subst hup
      rcases List.eq_nil_or_concat' more with rfl | ⟨front, last, rfl⟩
      · simp [step, below, hdir]
      · by_cases hlast : last = ".."
        · rw [hlast, step_above]
          exact hbelow _
        · rw [step_parent dir front hlast]
          exact hbelow front
    · by_cases hord : isOrdinary c = true
      · rw [step_ordinary _ hord, below_below]
        exact hbelow _
      · rw [step_neutral _ (by simpa using hord) hup]
        exact h

/-- Components that climb further than some directories lead down end above them. -/
theorem head?_foldl_step_of_lt (cs : List String) (down : List String)
    (hdown : ∀ c ∈ down, isOrdinary c = true) (hclimb : down.length < climb cs) :
    (cs.foldl step (here.below down)).parts.head? = some ".." := by
  induction cs generalizing down with
  | nil => simp [climb] at hclimb
  | cons c cs ih =>
    rw [List.foldl_cons]
    rw [climb] at hclimb
    split_ifs at hclimb with hup hord
    · subst hup
      rcases List.eq_nil_or_concat' down with rfl | ⟨front, last, rfl⟩
      · exact head?_foldl_step cs _ rfl
      · have hlast : last ≠ ".." := by
          rintro rfl
          have h := hdown ".." (by simp)
          cases h
        rw [step_parent here front hlast]
        refine ih front (fun d hd => hdown d (List.mem_append_left _ hd)) ?_
        rw [List.length_append, List.length_singleton] at hclimb
        omega
    · rw [step_ordinary _ hord, below_below]
      refine ih (down ++ [c]) ?_ ?_
      · intro d hd
        rcases List.mem_append.1 hd with hd | hd
        · exact hdown d hd
        · rw [List.mem_singleton.1 hd]
          exact hord
      · rw [List.length_append, List.length_singleton]
        omega
    · rw [step_neutral _ (by simpa using hord) hup]
      exact ih down hdown hclimb

theorem ofText_of_staysInside {name : String} (ha : isAbsolute name = false)
    (h : StaysInside (components name)) :
    ofText name = here.below (remaining (components name)) := by
  have hclimb : climb (components name) = ([] : List String).length := (climb_eq_zero_iff _).2 h
  have hfold := foldl_step (components name) here [] (by simp) hclimb
  rw [ofText, ha]
  exact hfold

theorem join_of_staysInside (root : String) {name : String} (h : StaysInside (components name)) :
    join root name = (ofText root).below (remaining (components name)) := by
  have hclimb : climb (components name) = ([] : List String).length := (climb_eq_zero_iff _).2 h
  have hfold := foldl_step (components name) (ofText root) [] (by simp) hclimb
  rw [below_nil] at hfold
  exact hfold

theorem isOutside_ofText {name : String} (ha : isAbsolute name = false) :
    (ofText name).isOutside = false ↔ StaysInside (components name) := by
  constructor
  · intro h
    by_contra hnot
    rw [← climb_eq_zero_iff] at hnot
    have hhead := head?_foldl_step_of_lt (components name) [] (by simp) (Nat.pos_of_ne_zero hnot)
    have htext : (ofText name).parts.head? = some ".." := by
      rw [ofText, ha]
      exact hhead
    simp [isOutside, htext] at h
  · intro h
    have hparts := isOrdinary_of_mem_remaining (components name)
    rw [ofText_of_staysInside ha h]
    cases hr : remaining (components name) with
    | nil => rfl
    | cons first more =>
      have hfirst : isOrdinary first = true := hparts first (by simp [hr])
      have hne : first ≠ ".." := by
        rintro rfl
        cases hfirst
      simp [isOutside, below, here, hne]

end Path

/-- The names that are taken to stay inside a directory. -/
theorem isLocal_iff (name : String) :
    isLocal name = true ↔
      name ≠ "" ∧ isAbsolute name = false ∧ StaysInside (components name) := by
  simp only [isLocal, Bool.and_eq_true, bne_iff_ne, Bool.not_eq_true', and_assoc]
  refine and_congr_right fun _ => and_congr_right fun ha => ?_
  exact Path.isOutside_ofText ha

theorem target_eq_ok_iff {root name : String} {path : Path} :
    target root name = .ok path ↔ isLocal name = true ∧ Path.join root name = path := by
  unfold target
  split_ifs with h
  · simp [h]
  · simp [h]

/-- A name that is accepted leads to the directory, extended by what is left of the name. -/
theorem target_eq_below {root name : String} {path : Path} (h : target root name = .ok path) :
    path = (Path.ofText root).below (Path.ofText name).parts ∧
      (Path.ofText name).parts = remaining (components name) := by
  obtain ⟨hlocal, rfl⟩ := target_eq_ok_iff.1 h
  obtain ⟨-, ha, hstays⟩ := (isLocal_iff name).1 hlocal
  have hparts : (Path.ofText name).parts = remaining (components name) := by
    rw [Path.ofText_of_staysInside ha hstays]
    rfl
  exact ⟨by rw [hparts, Path.join_of_staysInside root hstays], hparts⟩

end SchemaBindings.Delivery
