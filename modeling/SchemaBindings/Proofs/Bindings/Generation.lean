import Mathlib.Data.List.Forall2
import SchemaBindings.Bindings.Resolve

namespace SchemaBindings.Bindings.Generation

open SchemaBindings.Schema

variable {α β : Type} {context : FileContext} {used used' : UsedFiles}

@[simp] theorem run_pure (a : α) : run (pure a) context used = (.ok a, used) :=
  rfl

theorem run_pure_eq_ok_iff {a b : α} :
    run (pure a) context used = (.ok b, used') ↔ a = b ∧ used = used' := by
  rw [run_pure, Prod.mk.injEq, Except.ok.injEq]

theorem run_pure_eq_ok {a b : α} (h : run (pure a) context used = (.ok b, used')) : b = a :=
  (run_pure_eq_ok_iff.1 h).1.symm

theorem run_bind (x : Generation α) (f : α → Generation β) :
    run (x >>= f) context used =
      match run x context used with
      | (.ok a, used') => run (f a) context used'
      | (.error e, used') => (.error e, used') := by
  change StateT.run (ExceptT.run (ReaderT.run (x >>= f) context)) used = _
  simp only [ReaderT.run_bind, ExceptT.run_bind, StateT.run_bind]
  unfold run
  cases StateT.run (ExceptT.run (ReaderT.run x context)) used with
  | mk result used' => cases result <;> rfl

@[simp] theorem run_fail (cause : Cause) :
    run (fail cause : Generation α) context used = (.error (.ofCause cause), used) :=
  rfl

@[simp] theorem run_read : run read context used = (.ok context, used) :=
  rfl

@[simp] theorem run_ofExcept (x : Except Failure α) :
    run (ofExcept x) context used = (x, used) := by
  cases x <;> rfl

@[simp] theorem run_find (id : UInt64) :
    run (find id) context used = (context.graph.find id, used) := by
  rw [find, run_bind, run_read]
  exact run_ofExcept _

theorem run_within (place : Place) (x : Generation α) :
    run (within place x) context used =
      ((run x context used).1.mapError (.within place), (run x context used).2) := by
  change StateT.run (ExceptT.run (tryCatch (ReaderT.run x context)
    fun failure => throw (failure.within place))) used = _
  simp only [ExceptT.run_tryCatch, StateT.run_bind]
  unfold run
  cases StateT.run (ExceptT.run (ReaderT.run x context)) used with
  | mk result used' => cases result <;> rfl

/-- A step that goes on with the result of another succeeds when both do. -/
theorem run_bind_eq_ok_iff {x : Generation α} {f : α → Generation β} {b : β} :
    run (x >>= f) context used = (.ok b, used') ↔
      ∃ a mid, run x context used = (.ok a, mid) ∧ run (f a) context mid = (.ok b, used') := by
  rw [run_bind]
  cases run x context used with
  | mk result mid =>
    cases result with
    | ok a => simp
    | error e => simp

theorem run_map_eq_ok_iff {x : Generation α} {f : α → β} {b : β} :
    run (x >>= fun a => pure (f a)) context used = (.ok b, used') ↔
      ∃ a, run x context used = (.ok a, used') ∧ f a = b := by
  simp only [run_bind_eq_ok_iff, run_pure, Prod.mk.injEq, Except.ok.injEq]
  constructor
  · rintro ⟨a, mid, hx, hb, rfl⟩
    exact ⟨a, hx, hb⟩
  · rintro ⟨a, hx, hb⟩
    exact ⟨a, used', hx, hb, rfl⟩

theorem run_within_eq_ok_iff {place : Place} {x : Generation α} {a : α} :
    run (within place x) context used = (.ok a, used') ↔ run x context used = (.ok a, used') := by
  rw [run_within]
  cases run x context used with
  | mk result mid => cases result <;> simp [Except.mapError]

theorem run_mapM_eq_ok {f : α → Generation β} {xs : List α} {ys : List β}
    (h : run (xs.mapM f) context used = (.ok ys, used')) :
    List.Forall₂ (fun x y => ∃ u u', run (f x) context u = (.ok y, u')) xs ys := by
  induction xs generalizing ys used used' with
  | nil =>
    rw [List.mapM_nil] at h
    obtain rfl := run_pure_eq_ok h
    exact .nil
  | cons x xs ih =>
    rw [List.mapM_cons, run_bind_eq_ok_iff] at h
    obtain ⟨y, mid, hy, h⟩ := h
    obtain ⟨zs, mid', hz, h⟩ := run_bind_eq_ok_iff.1 h
    obtain rfl := run_pure_eq_ok h
    exact .cons ⟨used, mid, hy⟩ (ih hz)

end SchemaBindings.Bindings.Generation
