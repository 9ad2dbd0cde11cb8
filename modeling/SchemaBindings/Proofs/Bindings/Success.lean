import SchemaBindings.Proofs.Bindings.Generation
import SchemaBindings.Proofs.Schema.Links

namespace SchemaBindings

/-- The causes that lie in links between nodes; the others lie in a single node or in a type, or in
links that do not end. -/
def Schema.Cause.isBrokenLink : Schema.Cause → Bool
  | unknownNode _ | scopeMismatch .. | nestedFile | noSlots _ | notAFile .. => true
  | duplicateNode _ | notLiteral _ | listWithoutElement | noTypeName _ | noDataAccessor _
  | structWithoutPayload | constWithoutPayload | endlessLinks => false

namespace Bindings

open SchemaBindings.Schema

variable {α β : Type} {p q : Prop}

/-- A result is there exactly under a condition, and the failure in its place is a broken link. -/
def ExactlyWhen (p : Prop) : Except Failure α → Prop
  | .ok _ => p
  | .error e => ¬p ∧ e.cause.isBrokenLink = true

namespace ExactlyWhen

theorem congr {x : Except Failure α} (h : ExactlyWhen p x) (hpq : p ↔ q) : ExactlyWhen q x := by
  rwa [← hpq]

theorem isOk_iff {x : Except Failure α} (h : ExactlyWhen p x) : x.isOk = true ↔ p := by
  cases x with
  | ok a => exact ⟨fun _ => h, fun _ => rfl⟩
  | error e => exact ⟨fun he => (by cases he), fun hp => absurd hp h.1⟩

theorem isBrokenLink {x : Except Failure α} (h : ExactlyWhen p x) {e : Failure}
    (he : x = .error e) : e.cause.isBrokenLink = true := by
  rw [he] at h
  exact h.2

theorem mapError {x : Except Failure α} (h : ExactlyWhen p x) (place : Place) :
    ExactlyWhen p (x.mapError (.within place)) := by
  cases x with
  | ok a => exact h
  | error e => exact h

theorem bind {x : Except Failure α} {f : α → Except Failure β} (hx : ExactlyWhen p x)
    (hf : ∀ a, ExactlyWhen q (f a)) : ExactlyWhen (p ∧ q) (x >>= f) := by
  cases x with
  | ok a => exact (hf a).congr ⟨fun hq => ⟨hx, hq⟩, And.right⟩
  | error e => exact ⟨fun h => hx.1 h.1, hx.2⟩

theorem map {x : Except Failure α} {f : α → β} (hx : ExactlyWhen p x) :
    ExactlyWhen p (x >>= fun a => Pure.pure (f a)) := by
  cases x with
  | ok a => exact hx
  | error e => exact hx

/-- What goes on with a node succeeds when the node is there and the rest succeeds for it. -/
theorem find_bind {g : Graph} {id : UInt64} {place : Place} {f : Node → Except Failure β}
    {q : Node → Prop} (hf : ∀ n, g.find? id = some n → ExactlyWhen (q n) (f n)) :
    ExactlyWhen (∃ n, g.find? id = some n ∧ q n)
      ((g.find id).mapError (.within place) >>= f) := by
  cases h : g.find? id with
  | none =>
    rw [Graph.find_of_find?_none h]
    exact ⟨by simp, rfl⟩
  | some n =>
    rw [Graph.find_eq_ok_iff.2 h]
    exact (hf n h).congr ⟨fun hq => ⟨n, rfl, hq⟩, by rintro ⟨m, hm, hq⟩; cases hm; exact hq⟩

theorem mapM {f : α → Except Failure β} {p : α → Prop} {xs : List α}
    (h : ∀ x ∈ xs, ExactlyWhen (p x) (f x)) : ExactlyWhen (∀ x ∈ xs, p x) (xs.mapM f) := by
  induction xs with
  | nil =>
    rw [List.mapM_nil]
    exact fun x hx => by cases hx
  | cons x xs ih =>
    rw [List.mapM_cons]
    have hxs := ih fun y hy => h y (List.mem_cons_of_mem _ hy)
    exact ((h x List.mem_cons_self).bind fun y => hxs.map).congr (by simp)

end ExactlyWhen

/-- A step finds the node with an id, if there is one. -/
def Finds (context : FileContext) (step : Generation Node) (id : UInt64) : Prop :=
  ∀ used, match (Generation.run step context used).1 with
    | .ok n => context.graph.find? id = some n
    | .error e => context.graph.find? id = none ∧ e.cause.isBrokenLink = true

namespace Finds

variable {context : FileContext} {id : UInt64}

theorem find : Finds context (.find id) id := by
  intro used
  rw [Generation.run_find]
  cases h : context.graph.find? id with
  | none =>
    rw [Graph.find_of_find?_none h]
    exact ⟨rfl, rfl⟩
  | some n => rw [Graph.find_eq_ok_iff.2 h]

theorem within {place : Place} {step : Generation Node} (h : Finds context step id) :
    Finds context (.within place step) id := by
  intro used
  have hs := h used
  rw [Generation.run_within]
  cases hr : (Generation.run step context used).1 with
  | ok n =>
    rw [hr] at hs
    exact hs
  | error e =>
    rw [hr] at hs
    exact hs

end Finds

/-- Whatever files have been used before, a step succeeds exactly under a condition, and it fails
for no other reason than a broken link. -/
def Settles (context : FileContext) (step : Generation α) (p : Prop) : Prop :=
  ∀ used, ExactlyWhen p (Generation.run step context used).1

namespace Settles

variable {context : FileContext}

theorem congr {step : Generation α} (h : Settles context step p) (hpq : p ↔ q) :
    Settles context step q :=
  fun used => (h used).congr hpq

theorem pure (a : α) : Settles context (Pure.pure a) True :=
  fun _ => trivial

theorem ofExcept {x : Except Failure α} (h : ExactlyWhen p x) :
    Settles context (.ofExcept x) p := by
  intro used
  rwa [Generation.run_ofExcept]

theorem within {place : Place} {step : Generation α} (h : Settles context step p) :
    Settles context (.within place step) p := by
  intro used
  rw [Generation.run_within]
  exact (h used).mapError place

theorem bind {step : Generation α} {f : α → Generation β} (hs : Settles context step p)
    (hf : ∀ a, Settles context (f a) q) : Settles context (step >>= f) (p ∧ q) := by
  intro used
  have h := hs used
  rw [Generation.run_bind]
  cases hr : Generation.run step context used with
  | mk result used' =>
    rw [hr] at h
    cases result with
    | ok a => exact (hf a used').congr ⟨fun hq => ⟨h, hq⟩, And.right⟩
    | error e => exact ⟨fun hpq => h.1 hpq.1, h.2⟩

theorem map {step : Generation α} {f : α → β} (hs : Settles context step p) :
    Settles context (step >>= fun a => Pure.pure (f a)) p :=
  (hs.bind fun a => pure (f a)).congr (and_iff_left trivial)

theorem read_bind {f : FileContext → Generation β} (hf : Settles context (f context) p) :
    Settles context (read >>= f) p := by
  intro used
  rw [Generation.run_bind, Generation.run_read]
  exact hf used

theorem find_bind {id : UInt64} {step : Generation Node} {f : Node → Generation β} {q : Node → Prop}
    (hs : Finds context step id)
    (hf : ∀ n, context.graph.find? id = some n → Settles context (f n) (q n)) :
    Settles context (step >>= f) (∃ n, context.graph.find? id = some n ∧ q n) := by
  intro used
  have h := hs used
  rw [Generation.run_bind]
  cases hr : Generation.run step context used with
  | mk result used' =>
    rw [hr] at h
    cases result with
    | ok n =>
      refine (hf n h used').congr ⟨fun hq => ⟨n, h, hq⟩, ?_⟩
      rintro ⟨m, hm, hq⟩
      cases h.symm.trans hm
      exact hq
    | error e =>
      refine ⟨?_, h.2⟩
      rintro ⟨m, hm, -⟩
      cases h.1.symm.trans hm

theorem mapM {f : α → Generation β} {p : α → Prop} {xs : List α}
    (h : ∀ x ∈ xs, Settles context (f x) (p x)) :
    Settles context (xs.mapM f) (∀ x ∈ xs, p x) := by
  induction xs with
  | nil =>
    rw [List.mapM_nil]
    exact (pure []).congr (by simp)
  | cons x xs ih =>
    rw [List.mapM_cons]
    have hxs := ih fun y hy => h y (List.mem_cons_of_mem _ hy)
    exact ((h x List.mem_cons_self).bind fun y => hxs.map).congr (by simp)

end Settles

end Bindings
end SchemaBindings
