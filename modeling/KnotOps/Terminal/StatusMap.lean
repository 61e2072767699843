import KnotOps.Terminal.Task
import KnotOps.Machine
import Mathlib.Logic.Function.Basic

/-! What a task is for: a map from stage ids to statuses with one outcome.
An operation on an id that is not there, or after completion, has no effect.
The outcome is decided once, by the first failure or by the first operation
that leaves every stage ok or skipped. -/

namespace KnotOps.Terminal

open Machine

inductive Status where
  | running
  | ok
  | skip
  | fail
deriving DecidableEq, Repr

namespace Status

def Finished : Status → Prop
  | ok | skip => True
  | _ => False

instance : DecidablePred Finished
  | ok => .isTrue trivial
  | skip => .isTrue trivial
  | running => .isFalse not_false
  | fail => .isFalse not_false

end Status

inductive Outcome where
  | undecided
  | completed
  | failed
deriving DecidableEq, Repr

structure StatusMap (ι : Type) where
  ids : List ι
  status : ι → Option Status
  outcome : Outcome

namespace StatusMap

variable {ι : Type} [DecidableEq ι]

def blank (ids : List ι) : StatusMap ι :=
  ⟨ids, fun _ => none, .undecided⟩

def Finished (m : StatusMap ι) (id : ι) : Prop :=
  ∃ s ∈ m.status id, s.Finished

instance (m : StatusMap ι) : DecidablePred m.Finished := fun id =>
  match h : m.status id with
  | none => .isFalse (by simp [Finished, h])
  | some s => decidable_of_iff s.Finished (by simp [Finished, h])

def Known (m : StatusMap ι) (id : ι) : Prop :=
  m.outcome ≠ .completed ∧ id ∈ m.ids

instance (m : StatusMap ι) : DecidablePred m.Known := fun _ => instDecidableAnd

def set (m : StatusMap ι) (id : ι) (s : Status) : StatusMap ι :=
  { m with status := Function.update m.status id (some s) }

def decided (m : StatusMap ι) (s : Status) : Outcome :=
  match m.outcome with
  | .undecided =>
    if s = .fail then .failed
    else if ∀ id ∈ m.ids, m.Finished id then .completed
    else .undecided
  | outcome => outcome

def settle (m : StatusMap ι) (s : Status) : StatusMap ι :=
  { m with outcome := m.decided s }

def put (m : StatusMap ι) (id : ι) (s : Status) : StatusMap ι :=
  if m.Known id then (m.set id s).settle s else m

def putAll (s : Status) (ids : List ι) (m : StatusMap ι) : StatusMap ι :=
  exec (fun m id => m.put id s) m ids

def runAll (m : StatusMap ι) : StatusMap ι :=
  if m.outcome = .undecided then m.putAll .running m.ids else m

def step (m : StatusMap String) : TaskOp → StatusMap String
  | .runById id _ => m.put id .running
  | .okById id _ => m.put id .ok
  | .failById id _ => m.put id .fail
  | .skipById id _ => m.put id .skip
  | .run _ => m.runAll

@[simp] theorem set_outcome (m : StatusMap ι) (id : ι) (s : Status) :
    (m.set id s).outcome = m.outcome := rfl

theorem set_status (m : StatusMap ι) (id other : ι) (s : Status) :
    (m.set id s).status other = if other = id then some s else m.status other := by
  simp [set, Function.update_apply]

theorem set_finished (m : StatusMap ι) (id other : ι) (s : Status) :
    (m.set id s).Finished other ↔ if other = id then s.Finished else m.Finished other := by
  by_cases same : other = id <;> simp [Finished, set_status, same]

theorem put_of_unknown {m : StatusMap ι} {id : ι} {s : Status} (unknown : ¬ m.Known id) :
    m.put id s = m := if_neg unknown

theorem put_of_known {m : StatusMap ι} {id : ι} {s : Status} (known : m.Known id) :
    m.put id s = (m.set id s).settle s := if_pos known

omit [DecidableEq ι] in
theorem settle_fail {m : StatusMap ι} (isOpen : m.outcome = .undecided) :
    (m.settle .fail).outcome = .failed := by
  simp [settle, decided, isOpen]

omit [DecidableEq ι] in
theorem settle_all {m : StatusMap ι} {s : Status} (isOpen : m.outcome = .undecided)
    (notFail : s ≠ .fail) (all : ∀ id ∈ m.ids, m.Finished id) :
    (m.settle s).outcome = .completed := by
  simp only [settle, decided, isOpen, if_neg notFail, if_pos all]

omit [DecidableEq ι] in
theorem settle_some {m : StatusMap ι} {s : Status} (isOpen : m.outcome = .undecided)
    (notFail : s ≠ .fail) (unfinished : ∃ id ∈ m.ids, ¬ m.Finished id) :
    (m.settle s).outcome = .undecided := by
  have notAll : ¬ ∀ id ∈ m.ids, m.Finished id := by push Not; exact unfinished
  simp only [settle, decided, isOpen, if_neg notFail, if_neg notAll]

omit [DecidableEq ι] in
theorem settle_of_decided {m : StatusMap ι} (decided : m.outcome ≠ .undecided) (s : Status) :
    m.settle s = m := by
  cases m with
  | mk ids status outcome => cases outcome <;> first | exact absurd rfl decided | rfl

/-- While the outcome is open nothing has failed, and some stage, if there is
one, is not finished. -/
structure Consistent (m : StatusMap ι) : Prop where
  noFailure : m.outcome = .undecided → ∀ id, m.status id ≠ some .fail
  someOpen : m.outcome = .undecided → m.ids ≠ [] → ∃ id ∈ m.ids, ¬ m.Finished id

omit [DecidableEq ι] in
theorem blank_consistent (ids : List ι) : (blank ids).Consistent where
  noFailure _ id := by simp [blank]
  someOpen _ nonempty := by
    obtain ⟨id, member⟩ := List.exists_mem_of_ne_nil ids nonempty
    exact ⟨id, member, by simp [Finished, blank]⟩

omit [DecidableEq ι] in
theorem decided_eq_undecided (m : StatusMap ι) (s : Status) :
    m.decided s = .undecided ↔
      m.outcome = .undecided ∧ s ≠ .fail ∧ ∃ id ∈ m.ids, ¬ m.Finished id := by
  cases outcome : m.outcome with
  | undecided =>
    by_cases fails : s = .fail
    · simp [decided, outcome, fails]
    · by_cases all : ∀ id ∈ m.ids, m.Finished id
      · simp only [decided, outcome, if_neg fails, if_pos all]
        simpa using fun _ => all
      · simp only [decided, outcome, if_neg fails, if_neg all]
        push Not at all
        simpa [fails] using all
  | completed => simp [decided, outcome]
  | failed => simp [decided, outcome]

omit [DecidableEq ι] in
theorem settle_consistent (m : StatusMap ι) {s : Status}
    (noFailure : m.outcome = .undecided → s ≠ .fail → ∀ id, m.status id ≠ some .fail) :
    (m.settle s).Consistent where
  noFailure isOpen :=
    have h := (m.decided_eq_undecided s).mp isOpen
    noFailure h.1 h.2.1
  someOpen isOpen _ := ((m.decided_eq_undecided s).mp isOpen).2.2

theorem put_consistent {m : StatusMap ι} (h : m.Consistent) (id : ι) (s : Status) :
    (m.put id s).Consistent := by
  by_cases known : m.Known id
  · rw [put_of_known known]
    refine settle_consistent _ fun isOpen notFail other => ?_
    rw [set_status]
    split
    · simpa using notFail
    · exact h.noFailure isOpen other
  · rwa [put_of_unknown known]

theorem putAll_consistent {m : StatusMap ι} (h : m.Consistent) (s : Status) (ids : List ι) :
    (m.putAll s ids).Consistent :=
  exec_invariant Consistent (fun _ id inv => put_consistent inv id s) h ids

theorem step_consistent {m : StatusMap String} (h : m.Consistent) (op : TaskOp) :
    (m.step op).Consistent := by
  cases op with
  | run msg =>
    change m.runAll.Consistent
    unfold runAll
    split
    · exact putAll_consistent h _ _
    · exact h
  | _ => exact put_consistent h _ _

theorem put_outcome {m : StatusMap ι} (decided : m.outcome ≠ .undecided) (id : ι) (s : Status) :
    (m.put id s).outcome = m.outcome := by
  by_cases known : m.Known id
  · rw [put_of_known known]
    have stays : (m.set id s).outcome ≠ .undecided := decided
    rw [settle_of_decided stays s]
    rfl
  · rw [put_of_unknown known]

theorem step_outcome {m : StatusMap String} (decided : m.outcome ≠ .undecided) (op : TaskOp) :
    (m.step op).outcome = m.outcome := by
  cases op with
  | run msg => simp [step, runAll, decided]
  | _ => exact put_outcome decided _ _

theorem exec_outcome {m : StatusMap String} (decided : m.outcome ≠ .undecided)
    (ops : List TaskOp) : (exec step m ops).outcome = m.outcome :=
  exec_invariant (fun n : StatusMap String => n.outcome = m.outcome)
    (fun _ op same => (step_outcome (same ▸ decided) op).trans same) rfl ops

end StatusMap

end KnotOps.Terminal
