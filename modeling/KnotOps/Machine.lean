import Mathlib.Data.List.Basic

/-! Runs of machines given by step functions.
`exec` follows a total step function and `run` a partial one, where `none` is
either a step that is not enabled or a failure; a run is a finite list of
actions.  Every rule below lifts a fact about one step to a fact about runs:
an invariant, an invariant under a guard on the steps, a simulation, and a rank
under which runs end. -/

namespace KnotOps.Machine

universe u v w x

section Total

variable {State : Type u} {Action : Type v} {Model : Type w}

def exec (step : State → Action → State) (s : State) (actions : List Action) : State :=
  actions.foldl step s

@[simp] theorem exec_nil (step : State → Action → State) (s : State) :
    exec step s [] = s := rfl

@[simp] theorem exec_cons (step : State → Action → State) (s : State) (a : Action)
    (actions : List Action) :
    exec step s (a :: actions) = exec step (step s a) actions := rfl

theorem exec_append (step : State → Action → State) (s : State) (first second : List Action) :
    exec step s (first ++ second) = exec step (exec step s first) second :=
  List.foldl_append

theorem exec_invariant {step : State → Action → State} (Inv : State → Prop)
    (preserved : ∀ s a, Inv s → Inv (step s a)) {s : State} (start : Inv s)
    (actions : List Action) : Inv (exec step s actions) := by
  induction actions generalizing s with
  | nil => exact start
  | cons a actions ih => exact ih (preserved s a start)

theorem exec_each {step : State → Action → State} (Inv : State → Prop)
    (Done : Action → State → Prop) (preserved : ∀ s a, Inv s → Inv (step s a))
    (keeps : ∀ s a b, Inv s → Done b s → Done b (step s a)) {actions : List Action}
    (does : ∀ s, ∀ a ∈ actions, Inv s → Done a (step s a)) {s : State} (start : Inv s) :
    ∀ a ∈ actions, Done a (exec step s actions) := by
  induction actions generalizing s with
  | nil => simp
  | cons first rest ih =>
    have inv := preserved s first start
    intro a member
    rcases List.mem_cons.mp member with rfl | later
    · exact (exec_invariant (fun s => Inv s ∧ Done a s)
        (fun s b h => ⟨preserved s b h.1, keeps s b a h.1 h.2⟩)
        ⟨inv, does s a List.mem_cons_self start⟩ rest).2
    · exact ih (fun s b inRest => does s b (List.mem_cons_of_mem _ inRest)) inv a later

theorem exec_simulates {step : State → Action → State} {modelStep : Model → Action → Model}
    (Rel : State → Model → Prop)
    (simulated : ∀ s m a, Rel s m → Rel (step s a) (modelStep m a))
    {s : State} {m : Model} (start : Rel s m) (actions : List Action) :
    Rel (exec step s actions) (exec modelStep m actions) := by
  induction actions generalizing s m with
  | nil => exact start
  | cons a actions ih => exact ih (simulated s m a start)

end Total

section Partial

variable {State : Type u} {Action : Type v}

/-- The state that a list of actions leads to, when every step is enabled. -/
def run (step : State → Action → Option State) (s : State) : List Action → Option State
  | [] => some s
  | a :: actions => (step s a).bind fun next => run step next actions

theorem run_cons_eq_some {step : State → Action → Option State} {s t : State} {a : Action}
    {actions : List Action} :
    run step s (a :: actions) = some t ↔
      ∃ next, step s a = some next ∧ run step next actions = some t := by
  simp [run, Option.bind_eq_some_iff]

theorem run_append (step : State → Action → Option State) (s : State)
    (first second : List Action) :
    run step s (first ++ second) = (run step s first).bind fun t => run step t second := by
  induction first generalizing s with
  | nil => rfl
  | cons a first ih =>
    rw [List.cons_append, run, run, Option.bind_assoc]
    exact congrArg _ (funext ih)

theorem foldlM_eq_run (step : State → Action → Option State) (s : State)
    (actions : List Action) : actions.foldlM step s = run step s actions := by
  induction actions generalizing s with
  | nil => rfl
  | cons a actions ih =>
    rw [List.foldlM_cons, run]
    exact congrArg _ (funext ih)

theorem run_total (step : State → Action → State) (s : State) (actions : List Action) :
    run (fun s a => some (step s a)) s actions = some (exec step s actions) := by
  induction actions generalizing s with
  | nil => rfl
  | cons a actions ih => exact ih (step s a)

theorem run_invariant {step : State → Action → Option State} (Inv : State → Prop)
    (preserved : ∀ s a t, Inv s → step s a = some t → Inv t) {s t : State} (start : Inv s)
    {actions : List Action} (reached : run step s actions = some t) : Inv t := by
  induction actions generalizing s with
  | nil => exact Option.some.inj reached ▸ start
  | cons a actions ih =>
    obtain ⟨next, taken, rest⟩ := run_cons_eq_some.mp reached
    exact ih (preserved s a next start taken) rest

theorem run_countP {step : State → Action → Option State} {count : State → Nat}
    {kind : Action → Bool}
    (counts : ∀ s a t, step s a = some t → count t = count s + if kind a then 1 else 0)
    {s t : State} {actions : List Action} (reached : run step s actions = some t) :
    count t = count s + actions.countP kind := by
  induction actions generalizing s with
  | nil => simpa using (congrArg count (Option.some.inj reached)).symm
  | cons a actions ih =>
    obtain ⟨next, taken, rest⟩ := run_cons_eq_some.mp reached
    rw [ih rest, counts s a next taken, List.countP_cons]
    omega

theorem run_countP_le {step : State → Action → Option State} {rank : State → Nat}
    {kind : Action → Bool}
    (lowers : ∀ s a t, step s a = some t → rank t + (if kind a then 1 else 0) ≤ rank s)
    {s t : State} {actions : List Action} (reached : run step s actions = some t) :
    rank t + actions.countP kind ≤ rank s := by
  induction actions generalizing s with
  | nil => simp [Option.some.inj reached]
  | cons a actions ih =>
    obtain ⟨next, taken, rest⟩ := run_cons_eq_some.mp reached
    have later := ih rest
    have now := lowers s a next taken
    rw [List.countP_cons]
    omega

/-- Every step of the run is taken in a state where the guard allows it. -/
def Guarded (guard : State → Action → Prop) (step : State → Action → Option State) :
    State → List Action → Prop
  | _, [] => True
  | s, a :: actions => guard s a ∧ ∀ next, step s a = some next → Guarded guard step next actions

instance Guarded.decidable (guard : State → Action → Prop) (step : State → Action → Option State)
    [∀ s a, Decidable (guard s a)] :
    (s : State) → (actions : List Action) → Decidable (Guarded guard step s actions)
  | _, [] => inferInstanceAs (Decidable True)
  | s, a :: actions =>
    match h : step s a with
    | none => decidable_of_iff (guard s a) (by simp [Guarded, h])
    | some next =>
      have := Guarded.decidable guard step next actions
      decidable_of_iff (guard s a ∧ Guarded guard step next actions) (by simp [Guarded, h])

theorem guarded_of_forall {step : State → Action → Option State} {guard : State → Action → Prop}
    {actions : List Action} (allowed : ∀ a ∈ actions, ∀ s, guard s a) (s : State) :
    Guarded guard step s actions := by
  induction actions generalizing s with
  | nil => trivial
  | cons a actions ih =>
    exact ⟨allowed a List.mem_cons_self s,
      fun next _ => ih (fun b member => allowed b (List.mem_cons_of_mem _ member)) next⟩

theorem run_guarded {step : State → Action → Option State} {guard : State → Action → Prop}
    (Inv : State → Prop)
    (preserved : ∀ s a t, Inv s → guard s a → step s a = some t → Inv t) {s t : State}
    (start : Inv s) {actions : List Action} (allowed : Guarded guard step s actions)
    (reached : run step s actions = some t) : Inv t := by
  induction actions generalizing s with
  | nil => exact Option.some.inj reached ▸ start
  | cons a actions ih =>
    obtain ⟨next, taken, rest⟩ := run_cons_eq_some.mp reached
    exact ih (preserved s a next start allowed.1 taken) (allowed.2 next taken) rest

/-- A property that a step keeps exactly when the guard allows it holds after
exactly the runs that the guard allows. -/
theorem run_guarded_iff {step : State → Action → Option State} {guard : State → Action → Prop}
    (Inv Good : State → Prop) (preserved : ∀ s a t, Inv s → step s a = some t → Inv t)
    (exact : ∀ s a t, Inv s → step s a = some t → (Good t ↔ Good s ∧ guard s a)) {s t : State}
    (start : Inv s) {actions : List Action} (reached : run step s actions = some t) :
    Good t ↔ Good s ∧ Guarded guard step s actions := by
  induction actions generalizing s with
  | nil =>
    rw [← Option.some.inj reached]
    simp [Guarded]
  | cons a actions ih =>
    obtain ⟨next, taken, rest⟩ := run_cons_eq_some.mp reached
    have after := ih (preserved s a next start taken) rest
    have now := exact s a next start taken
    simp only [Guarded, taken, Option.some.injEq, forall_eq']
    rw [after, now, and_assoc]

/-- Where a step from a good state ends in a good one exactly when the guard allows
it, the runs through good states only are those that the guard allows. -/
theorem always_guarded_iff {step : State → Action → Option State} {guard : State → Action → Prop}
    (Inv Good : State → Prop) (preserved : ∀ s a t, Inv s → step s a = some t → Inv t)
    (exact : ∀ s a t, Inv s → Good s → step s a = some t → (Good t ↔ guard s a)) {s t : State}
    (start : Inv s) (good : Good s) {actions : List Action}
    (reached : run step s actions = some t) :
    (∀ taken mid, taken <+: actions → run step s taken = some mid → Good mid) ↔
      Guarded guard step s actions := by
  induction actions generalizing s with
  | nil =>
    refine iff_of_true (fun taken mid before at_mid => ?_) trivial
    rw [List.prefix_nil.mp before] at at_mid
    exact Option.some.inj at_mid ▸ good
  | cons a actions ih =>
    obtain ⟨next, first, rest⟩ := run_cons_eq_some.mp reached
    have now := exact s a next start good first
    have after (is_good : Good next) := ih (preserved s a next start first) is_good rest
    simp only [Guarded, first, Option.some.injEq, forall_eq']
    constructor
    · intro always
      have is_good : Good next := always [a] next (by simp) (by simp [run, first])
      refine ⟨now.mp is_good, (after is_good).mp fun taken mid before at_mid => ?_⟩
      exact always (a :: taken) mid (by simpa using before) (by simp [run, first, at_mid])
    · rintro ⟨allowed, guarded⟩ taken mid before at_mid
      cases taken with
      | nil => exact Option.some.inj at_mid ▸ good
      | cons b taken =>
        obtain ⟨rfl, later⟩ := List.cons_prefix_cons.mp before
        rw [run, first] at at_mid
        exact (after (now.mpr allowed)).mpr guarded taken mid later at_mid

theorem Guarded.imp {step : State → Action → Option State} {guard guard' : State → Action → Prop}
    (Inv : State → Prop) (preserved : ∀ s a t, Inv s → guard s a → step s a = some t → Inv t)
    (implies : ∀ s a, Inv s → guard s a → guard' s a) {s : State} (start : Inv s)
    {actions : List Action} (allowed : Guarded guard step s actions) :
    Guarded guard' step s actions := by
  induction actions generalizing s with
  | nil => trivial
  | cons a actions ih =>
    refine ⟨implies s a start allowed.1, fun next taken => ?_⟩
    exact ih (preserved s a next start allowed.1 taken) (allowed.2 next taken)

/-- Every run from the state is finite, and where it cannot go on the property
holds. -/
inductive Leads (step : State → Action → Option State) (Final : State → Prop) : State → Prop
  | intro {s : State} (final : (∀ a, step s a = none) → Final s)
      (next : ∀ a t, step s a = some t → Leads step Final t) : Leads step Final s

theorem Leads.imp {step : State → Action → Option State} {Final Final' : State → Prop}
    (implies : ∀ s, Final s → Final' s) {s : State} (h : Leads step Final s) :
    Leads step Final' s := by
  induction h with
  | intro final _ ih => exact .intro (fun stopped => implies _ (final stopped)) ih

/-- A rank that every step lowers and an invariant that gives the property where
no step is left. -/
theorem leads_of_rank {step : State → Action → Option State} {Final : State → Prop}
    (Inv : State → Prop) (rank : State → Nat)
    (preserved : ∀ s a t, Inv s → step s a = some t → Inv t ∧ rank t < rank s)
    (final : ∀ s, Inv s → (∀ a, step s a = none) → Final s) {s : State} (start : Inv s) :
    Leads step Final s := by
  induction measured : rank s using Nat.strongRecOn generalizing s with
  | ind n ih =>
    refine .intro (final s start) fun a t taken => ?_
    obtain ⟨inv, lower⟩ := preserved s a t start taken
    exact ih (rank t) (measured ▸ lower) inv rfl

end Partial

end KnotOps.Machine
