import Mathlib.Data.List.Forall2
import KnotOps.Machine

/-! Programs run in lockstep on related data.
Partial functions are related when they are defined together and their values are
related; lists of slots are related slot by slot. -/

namespace KnotOps.Machine

universe u v w

section Options

variable {α : Type u} {β : Type v} {γ : Type w} {δ : Type w}
variable {R : α → β → Prop} {S : γ → δ → Prop}

theorem rel_bind {x : Option α} {y : Option β} (related : Option.Rel R x y)
    {f : α → Option γ} {g : β → Option δ} (next : ∀ a b, R a b → Option.Rel S (f a) (g b)) :
    Option.Rel S (x.bind f) (y.bind g) := by
  cases related with
  | none => exact .none
  | some h => exact next _ _ h

theorem rel_map {x : Option α} {y : Option β} (related : Option.Rel R x y)
    {f : α → γ} {g : β → δ} (next : ∀ a b, R a b → S (f a) (g b)) :
    Option.Rel S (x.map f) (y.map g) := by
  cases related with
  | none => exact .none
  | some h => exact .some (next _ _ h)

end Options

section Slots

variable {α : Type u} {β : Type v} {R : α → β → Prop} {xs : List α} {ys : List β}

theorem rel_getElem? (related : List.Forall₂ R xs ys) (i : Nat) :
    Option.Rel R xs[i]? ys[i]? := by
  induction related generalizing i with
  | nil => exact .none
  | cons first _ ih =>
    cases i with
    | zero => exact .some first
    | succ i => exact ih i

theorem rel_set (related : List.Forall₂ R xs ys) (i : Nat) {a : α} {b : β} (h : R a b) :
    List.Forall₂ R (xs.set i a) (ys.set i b) := by
  induction related generalizing i with
  | nil => exact .nil
  | cons first rest ih =>
    cases i with
    | zero => exact .cons h rest
    | succ i => exact .cons first (ih i)

end Slots

variable {State : Type u} {Model : Type u} {Action : Type v} {Call : Type v}

/-- Two machines that take related steps together take related runs together. -/
theorem run_lockstep {step : State → Action → Option State} {step' : Model → Call → Option Model}
    (Rel : State → Model → Prop) (translate : Action → Call)
    (related : ∀ s m a, Rel s m → Option.Rel Rel (step s a) (step' m (translate a)))
    {s : State} {m : Model} (start : Rel s m) (actions : List Action) :
    Option.Rel Rel (run step s actions) (run step' m (actions.map translate)) := by
  induction actions generalizing s m with
  | nil => exact .some start
  | cons a actions ih => exact rel_bind (related s m a start) fun _ _ h => ih h

end KnotOps.Machine
