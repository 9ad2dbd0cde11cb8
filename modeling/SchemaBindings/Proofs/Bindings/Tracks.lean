import SchemaBindings.Proofs.Bindings.Generation
import SchemaBindings.Proofs.Outcome
import SchemaBindings.Proofs.Schema.Depth

namespace SchemaBindings.Bindings

open SchemaBindings.Schema

variable {α β : Type} {context : FileContext} {used : UsedFiles}

namespace Generation

/-- The answer of a step, with the files used where it succeeds. -/
def result (step : Generation α) (context : FileContext) (used : UsedFiles) :
    Except Failure (α × UsedFiles) :=
  match run step context used with
  | (.ok a, used') => .ok (a, used')
  | (.error e, _) => .error e

theorem result_bind (x : Generation α) (f : α → Generation β) :
    result (x >>= f) context used =
      result x context used >>= fun r => result (f r.1) context r.2 := by
  simp only [result, run_bind]
  cases run x context used with
  | mk answer used' => cases answer <;> rfl

theorem result_read_bind (f : FileContext → Generation β) :
    result (read >>= f) context used = result (f context) context used :=
  result_bind read f

theorem result_ofExcept (x : Except Failure α) :
    result (ofExcept x) context used = x.map fun a => (a, used) := by
  cases x <;> rfl

theorem result_within (place : Place) (x : Generation α) :
    result (within place x) context used =
      (result x context used).mapError (.within place) := by
  simp only [result, run_within]
  cases run x context used with
  | mk answer used' => cases answer <;> rfl

/-- A step only looks something up: it answers the same whatever files have been used. -/
def LooksUp (context : FileContext) (step : Generation α) (x : Except Failure α) : Prop :=
  ∀ used, result step context used = x.map fun a => (a, used)

theorem LooksUp.ofExcept (x : Except Failure α) : LooksUp context (ofExcept x) x :=
  fun _ => result_ofExcept x

theorem LooksUp.find (id : UInt64) : LooksUp context (find id) (context.graph.find id) :=
  fun _ => (result_read_bind _).trans (result_ofExcept _)

theorem LooksUp.find_of_agreeOn {file : RequestedFile} {g₁ g₂ : Graph} {S : UInt64 → Prop}
    {id : UInt64} (hS : g₁.AgreeOn g₂ S) (hid : S id) :
    LooksUp ⟨g₂, file⟩ (Generation.find id) (g₁.find id) := by
  rw [hS.find_eq hid]
  exact .find id

theorem LooksUp.within {step : Generation α} {x : Except Failure α} (h : LooksUp context step x)
    (place : Place) : LooksUp context (within place step) (x.mapError (.within place)) := by
  intro used
  rw [result_within, h used]
  cases x <;> rfl

end Generation

/-- A step on one graph is followed by a step on another, for the same requested file. When `p`
holds, both start with the same files used. -/
def Tracks (p q : Prop) (file : RequestedFile) (g₁ g₂ : Graph) (step₁ step₂ : Generation α) :
    Prop :=
  ∀ used₁ used₂, (p → used₁ = used₂) →
    Follows p q (Generation.result step₁ ⟨g₁, file⟩ used₁)
      (Generation.result step₂ ⟨g₂, file⟩ used₂)

namespace Tracks

variable {p q : Prop} {file : RequestedFile} {g₁ g₂ : Graph}

theorem weaken {s₁ s₂ : Generation α} (h : Tracks p False file g₁ g₂ s₁ s₂) :
    Tracks p q file g₁ g₂ s₁ s₂ :=
  fun used₁ used₂ hused => (h used₁ used₂ hused).weaken

theorem pure {a b : α} (h : p → a = b) : Tracks p q file g₁ g₂ (Pure.pure a) (Pure.pure b) :=
  fun _ _ hused => .ok fun hp => by rw [h hp, hused hp]

theorem fail (cause : Cause) :
    Tracks p q file g₁ g₂ (.fail cause : Generation α) (.fail cause) :=
  fun _ _ _ => .error _

theorem markUsed (id : UInt64) : Tracks p q file g₁ g₂ (.markUsed id) (.markUsed id) := by
  intro used₁ used₂ hused
  exact .ok fun hp => by rw [hused hp]

theorem bind {s₁ s₂ : Generation α} {f k : α → Generation β} (h : Tracks p q file g₁ g₂ s₁ s₂)
    (hf : ∀ a b, (p → a = b) → Tracks p q file g₁ g₂ (f a) (k b)) :
    Tracks p q file g₁ g₂ (s₁ >>= f) (s₂ >>= k) := by
  intro used₁ used₂ hused
  rw [Generation.result_bind, Generation.result_bind]
  refine (h used₁ used₂ hused).bind fun x y hxy => ?_
  exact hf x.1 y.1 (fun hp => by rw [hxy hp]) x.2 y.2 (fun hp => by rw [hxy hp])

theorem map {s₁ s₂ : Generation α} {f k : α → β} (h : Tracks p q file g₁ g₂ s₁ s₂)
    (hf : p → f = k) :
    Tracks p q file g₁ g₂ (s₁ >>= fun a => Pure.pure (f a)) (s₂ >>= fun b => Pure.pure (k b)) :=
  h.bind fun a b hab => .pure fun hp => by rw [hab hp, hf hp]

theorem read_bind {f k : FileContext → Generation β}
    (h : Tracks p q file g₁ g₂ (f ⟨g₁, file⟩) (k ⟨g₂, file⟩)) :
    Tracks p q file g₁ g₂ (read >>= f) (read >>= k) := by
  intro used₁ used₂ hused
  rw [Generation.result_read_bind, Generation.result_read_bind]
  exact h used₁ used₂ hused

/-- What is looked up is the same in both graphs, also where the rest is only compared in part. -/
theorem lookup_bind {s₁ s₂ : Generation α} {x : Except Failure α} {f k : α → Generation β}
    (h₁ : Generation.LooksUp ⟨g₁, file⟩ s₁ x) (h₂ : Generation.LooksUp ⟨g₂, file⟩ s₂ x)
    (hf : ∀ a, x = .ok a → Tracks p q file g₁ g₂ (f a) (k a)) :
    Tracks p q file g₁ g₂ (s₁ >>= f) (s₂ >>= k) := by
  intro used₁ used₂ hused
  rw [Generation.result_bind, Generation.result_bind, h₁, h₂]
  cases x with
  | error e => exact .error e
  | ok a => exact hf a rfl used₁ used₂ hused

theorem find_bind {S : UInt64 → Prop} {id : UInt64} {f k : Node → Generation β}
    (hS : g₁.AgreeOn g₂ S) (hid : S id)
    (hf : ∀ m, g₁.find? id = some m → Tracks p q file g₁ g₂ (f m) (k m)) :
    Tracks p q file g₁ g₂ (.find id >>= f) (.find id >>= k) :=
  lookup_bind (.find id) (.find_of_agreeOn hS hid) fun m hm => hf m (Graph.find_eq_ok_iff.1 hm)

theorem find_within_bind {S : UInt64 → Prop} {id : UInt64} {place : Place}
    {f k : Node → Generation β} (hS : g₁.AgreeOn g₂ S) (hid : S id)
    (hf : ∀ m, g₁.find? id = some m → Tracks p q file g₁ g₂ (f m) (k m)) :
    Tracks p q file g₁ g₂ (.within place (.find id) >>= f) (.within place (.find id) >>= k) := by
  have hfind : Generation.LooksUp ⟨g₂, file⟩ (.find id) (g₁.find id) := .find_of_agreeOn hS hid
  refine lookup_bind (.within (.find id) place) (hfind.within place) fun m hm => hf m ?_
  rwa [Outcome.mapError_eq_ok_iff, Graph.find_eq_ok_iff] at hm

theorem within {s₁ s₂ : Generation α} (h : Tracks p False file g₁ g₂ s₁ s₂) (place : Place) :
    Tracks p q file g₁ g₂ (.within place s₁) (.within place s₂) := by
  intro used₁ used₂ hused
  rw [Generation.result_within, Generation.result_within]
  exact (h used₁ used₂ hused).mapError _

theorem mapM {f k : α → Generation β} {xs : List α}
    (h : ∀ x ∈ xs, Tracks p q file g₁ g₂ (f x) (k x)) :
    Tracks p q file g₁ g₂ (xs.mapM f) (xs.mapM k) := by
  induction xs with
  | nil => exact .pure fun _ => rfl
  | cons x xs ih =>
    rw [List.mapM_cons, List.mapM_cons]
    refine (h x List.mem_cons_self).bind fun a b hab => ?_
    exact (ih fun y hy => h y (List.mem_cons_of_mem _ hy)).map fun hp => by rw [hab hp]

end Tracks
end SchemaBindings.Bindings
