import SchemaBindings.Proofs.Schema.Reachable

namespace SchemaBindings.Schema

/-- What a recursion along links fails with when it is given too little depth. -/
def Failure.cutShort : Failure :=
  .ofCause .endlessLinks

variable {α β A : Type} {p q : Prop}

/-- How the answer of one computation follows that of another. Failures are the same, and results
are the same when `p` holds. If `q` holds, the first may have been cut short instead. -/
inductive Follows (p q : Prop) : Except Failure α → Except Failure α → Prop where
  | ok {a b : α} (h : p → a = b) : Follows p q (.ok a) (.ok b)
  | error (e : Failure) : Follows p q (.error e) (.error e)
  | cut (h : q) (y : Except Failure α) : Follows p q (.error .cutShort) y

namespace Follows

theorem refl (x : Except Failure α) : Follows p q x x := by
  cases x with
  | ok a => exact .ok fun _ => rfl
  | error e => exact .error e

theorem eq {x y : Except Failure α} (h : Follows True False x y) : x = y := by
  cases h with
  | ok h => rw [h trivial]
  | error e => rfl
  | cut h => cases h

theorem cut_or_eq {x y : Except Failure α} (h : Follows True True x y) :
    x = .error .cutShort ∨ x = y := by
  cases h with
  | ok h => exact .inr (by rw [h trivial])
  | error e => exact .inr rfl
  | cut => exact .inl rfl

theorem error_right {x y : Except Failure α} {e : Failure} (h : Follows p False x y)
    (hx : x = .error e) : y = .error e := by
  cases h with
  | ok => cases hx
  | error => exact hx
  | cut h => cases h

theorem weaken {x y : Except Failure α} (h : Follows p False x y) : Follows p q x y := by
  cases h with
  | ok h => exact .ok h
  | error e => exact .error e
  | cut h => cases h

theorem mapError {x y : Except Failure α} (h : Follows p False x y) (f : Failure → Failure) :
    Follows p q (x.mapError f) (y.mapError f) := by
  cases h with
  | ok h => exact .ok h
  | error e => exact .error (f e)
  | cut h => cases h

theorem bind {x y : Except Failure α} {f k : α → Except Failure β} (h : Follows p q x y)
    (hf : ∀ a b, (p → a = b) → Follows p q (f a) (k b)) : Follows p q (x >>= f) (y >>= k) := by
  cases h with
  | ok h => exact hf _ _ h
  | error e => exact .error e
  | cut h => exact .cut h _

/-- Going on from the very same answer. -/
theorem bind_same {x : Except Failure α} {f k : α → Except Failure β}
    (hf : ∀ a, x = .ok a → Follows p q (f a) (k a)) : Follows p q (x >>= f) (x >>= k) := by
  cases x with
  | ok a => exact hf a rfl
  | error e => exact .error e

theorem mapM {f k : α → Except Failure β} {xs : List α}
    (h : ∀ x ∈ xs, Follows p q (f x) (k x)) : Follows p q (xs.mapM f) (xs.mapM k) := by
  induction xs with
  | nil => exact refl _
  | cons x xs ih =>
    rw [List.mapM_cons, List.mapM_cons]
    refine (h x List.mem_cons_self).bind fun a b hab => ?_
    refine (ih fun y hy => h y (List.mem_cons_of_mem _ hy)).bind fun as bs habs => ?_
    exact .ok fun hp => by rw [hab hp, habs hp]

end Follows

/-- A recursion over the links of a graph, with a depth that falls at every link. It sees a node
through what it finds under its links, and its failures do not depend on the arguments. -/
structure LinkRecursion (F : Graph → Nat → A → Node → Except Failure α) : Prop where
  zero : ∀ g a n, F g 0 a n = .error .cutShort
  succ : ∀ {p q : Prop} {g₁ g₂ : Graph} {S : UInt64 → Prop} {d₁ d₂ : Nat} {a b : A} {n : Node},
    g₁.AgreeOn g₂ S → (∀ id ∈ n.links, S id) → (p → a = b) →
    (∀ m a b, (∃ id ∈ n.links, g₁.find? id = some m) → (p → a = b) →
      Follows p q (F g₁ d₁ a m) (F g₂ d₂ b m)) →
    Follows p q (F g₁ (d₁ + 1) a n) (F g₂ (d₂ + 1) b n)

namespace LinkRecursion

variable {F : Graph → Nat → A → Node → Except Failure α} {g g₁ g₂ : Graph} {S : UInt64 → Prop}
  {depth : Nat} {a b : A} {n : Node}

/-- At one depth, the answers depend on what links lead to. -/
theorem follows_of_agreeOn (hF : LinkRecursion F) (hS : g₁.AgreeOn g₂ S)
    (hn : ∀ id ∈ n.links, S id) (hab : p → a = b) :
    Follows p False (F g₁ depth a n) (F g₂ depth b n) := by
  induction depth generalizing a b n with
  | zero =>
    rw [hF.zero, hF.zero]
    exact .error _
  | succ depth ih =>
    refine hF.succ hS hn hab fun m a b hm hab => ih ?_ hab
    obtain ⟨id, hid, hm⟩ := hm
    exact hS.closed id m (hn id hid) hm

theorem cut_of_cut (hF : LinkRecursion F) (h : F g depth a n = .error .cutShort) :
    F g depth b n = .error .cutShort :=
  (hF.follows_of_agreeOn g.agreeOn_self (fun _ _ => trivial) False.elim).error_right h

theorem cut_or_eq_succ (hF : LinkRecursion F) :
    F g depth a n = .error .cutShort ∨ F g depth a n = F g (depth + 1) a n := by
  have h : Follows True True (F g depth a n) (F g (depth + 1) a n) := by
    induction depth generalizing a n with
    | zero =>
      rw [hF.zero]
      exact .cut trivial _
    | succ depth ih =>
      refine hF.succ g.agreeOn_self (fun _ _ => trivial) (fun _ => rfl) fun m a b _ hab => ?_
      rw [hab trivial]
      exact ih
  exact h.cut_or_eq

/-- More depth changes nothing for the nodes of a graph. -/
def Stable (F : Graph → Nat → A → Node → Except Failure α) (g : Graph) (depth : Nat) : Prop :=
  ∀ m ∈ g.nodes, ∀ a, F g depth a m = F g (depth + 1) a m

theorem Stable.eq_succ (hF : LinkRecursion F) (h : Stable F g depth) :
    F g (depth + 1) a n = F g (depth + 2) a n := by
  refine (hF.succ g.agreeOn_self (fun _ _ => trivial) (fun _ => rfl) fun m a b hm hab => ?_).eq
  obtain ⟨id, -, hm⟩ := hm
  rw [hab trivial, h m (Graph.mem_of_find? hm)]
  exact .refl _

open Classical in
/-- The nodes of a graph for which the depth is enough. -/
noncomputable def settled (F : Graph → Nat → A → Node → Except Failure α) (g : Graph)
    (depth : Nat) : Finset Node :=
  g.nodes.toFinset.filter fun n => ∃ a, F g depth a n ≠ .error .cutShort

theorem settled_ssubset (hF : LinkRecursion F) (h : ¬Stable F g depth) :
    settled F g depth ⊂ settled F g (depth + 1) := by
  classical
  simp only [Stable, not_forall] at h
  obtain ⟨m, hm, a, hne⟩ := h
  have hcut := hF.cut_or_eq_succ.resolve_right hne
  rw [Finset.ssubset_iff_of_subset]
  · refine ⟨m, Finset.mem_filter.2 ⟨List.mem_toFinset.2 hm, a, ?_⟩, ?_⟩
    · exact fun hsucc => hne (hcut.trans hsucc.symm)
    · rintro hmem
      obtain ⟨-, b, hb⟩ := Finset.mem_filter.1 hmem
      exact hb (hF.cut_of_cut hcut)
  · intro k hk
    obtain ⟨hk, b, hb⟩ := Finset.mem_filter.1 hk
    refine Finset.mem_filter.2 ⟨hk, b, ?_⟩
    rwa [← hF.cut_or_eq_succ.resolve_left hb]

/-- Every depth that still changes something settles one more node. -/
theorem lt_card_settled (hF : LinkRecursion F) (h : ¬Stable F g depth) :
    depth < (settled F g (depth + 1)).card := by
  induction depth with
  | zero =>
    have hlt := Finset.card_lt_card (settled_ssubset hF h)
    omega
  | succ depth ih =>
    have hlt := Finset.card_lt_card (settled_ssubset hF h)
    -- once a depth changes nothing, no later one does
    have hbefore : ¬Stable F g depth := fun hs => h fun m _ a => hs.eq_succ hF
    have hdepth := ih hbefore
    omega

theorem stable_size (hF : LinkRecursion F) : Stable F g g.size := by
  classical
  by_contra h
  have hlt := lt_card_settled hF h
  have hle : (settled F g (g.size + 1)).card ≤ g.size :=
    (Finset.card_filter_le _ _).trans (List.toFinset_card_le g.nodes)
  omega

theorem stable_of_size_le (hF : LinkRecursion F) (h : g.size ≤ depth) : Stable F g depth := by
  induction depth, h using Nat.le_induction with
  | base => exact stable_size hF
  | succ depth _ ih => exact fun m _ a => ih.eq_succ hF

theorem eq_depthBound (hF : LinkRecursion F) (h : g.depthBound ≤ depth) :
    F g depth a n = F g g.depthBound a n := by
  induction depth, h using Nat.le_induction with
  | base => rfl
  | succ depth hle ih =>
    obtain ⟨k, rfl⟩ := Nat.exists_eq_add_of_le' hle
    have hstable : Stable F g (k + g.size) := stable_of_size_le hF (Nat.le_add_left _ _)
    exact (hstable.eq_succ hF).symm.trans ih

/-- With the depth that a graph calls for, the answers depend on what links lead to, and not on how
many nodes there are. -/
theorem follows (hF : LinkRecursion F) (hS : g₁.AgreeOn g₂ S) (hn : ∀ id ∈ n.links, S id)
    (hab : p → a = b) : Follows p False (F g₁ g₁.depthBound a n) (F g₂ g₂.depthBound b n) := by
  rw [← hF.eq_depthBound (Nat.le_max_left g₁.depthBound g₂.depthBound),
    ← hF.eq_depthBound (Nat.le_max_right g₁.depthBound g₂.depthBound)]
  exact hF.follows_of_agreeOn hS hn hab

end LinkRecursion
end SchemaBindings.Schema
