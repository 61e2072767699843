import KnotOps.Terminal.SequenceRuns

/-! How often the outcome of a root is rendered.
By-id operations, bulk runs and sequences decide the root through the status map
or the sequential machine, which decide once.  Of the consuming operations only
`fail` renders the outcome without asking whether the root is finished, after a
loop whose first stage has already failed it. -/

namespace KnotOps.Terminal

open Machine

/-- How many terminal records the renderer with the key has emitted. -/
def Screen.terminals (w : Screen) (key : Nat) : Nat :=
  (w.marksOf key).countP Mark.terminal

theorem Outcome.countP_marks (o : Outcome) :
    o.marks.countP Mark.terminal = if o = .undecided then 0 else 1 := by
  cases o <;> rfl

namespace StatusMap

theorem put_fail_outcome {m : StatusMap String} {id : String} (isOpen : m.outcome = .undecided)
    (known : id ∈ m.ids) : (m.put id .fail).outcome = .failed := by
  have live : m.Known id := ⟨by simp [isOpen], known⟩
  rw [put_of_known live]
  exact settle_fail isOpen

theorem putAll_fail_outcome {m : StatusMap String} (isOpen : m.outcome = .undecided) :
    (m.putAll .fail m.ids).outcome = if m.ids = [] then .undecided else .failed := by
  cases ids : m.ids with
  | nil => exact isOpen
  | cons id rest =>
    have first : (m.put id .fail).outcome = .failed :=
      put_fail_outcome isOpen (ids ▸ List.mem_cons_self)
    have stays : ((m.put id .fail).putAll .fail rest).outcome = .failed :=
      exec_invariant (fun n : StatusMap String => n.outcome = .failed)
        (fun n other failed => (put_outcome (by simp [failed]) other .fail).trans failed)
        first rest
    simpa [putAll] using stays

end StatusMap

/-- The operations that render a second outcome: `fail` on an open root that has
stages to fail. -/
def TaskEnd.FailsTwice (t : Task) : TaskEnd → Prop
  | fail _ => t.isFinished = false ∧ t.collectStageIds ≠ []
  | _ => False

instance (t : Task) : DecidablePred (TaskEnd.FailsTwice t)
  | .fail _ => instDecidableAnd
  | .ok _ => instDecidableFalse
  | .skip _ => instDecidableFalse

namespace Tracks

variable {head : Nat} {old : List Mark} {t : Task} {w : Screen} {m : StatusMap String}

theorem terminals {s : Task × Screen} (h : Tracks head old s m) :
    s.2.terminals head =
      old.countP Mark.terminal + if m.outcome = .undecided then 0 else 1 := by
  rw [Screen.terminals, h.root, List.countP_append, Outcome.countP_marks]

theorem terminals_le {s : Task × Screen} (h : Tracks head old s m) :
    s.2.terminals head ≤ old.countP Mark.terminal + 1 := by
  rw [h.terminals]
  split <;> omega

theorem performOk (h : Tracks head old (t, w) m) (consistent : m.Consistent) (msg : String) :
    (t.performOk msg w).2.terminals head ≤ old.countP Mark.terminal + 1 := by
  unfold Task.performOk
  by_cases isOpen : m.outcome = .undecided
  · have unfinished := h.open_of_undecided isOpen
    rw [unfinished, if_neg Bool.false_ne_true]
    by_cases empty : t.collectStageIds.isEmpty
    · have key : t.renderer.key = head := h.key
      have root : w.marksOf head = old := by simpa [isOpen, Outcome.marks] using h.root
      simp only [if_pos empty]
      rw [Screen.terminals, Screen.marksOf_eq_append (t.marks_setCompleted w msg unfinished)]
      simp [key, root, Mark.terminal]
    · simp only [if_neg empty]
      exact (forIds (fun _ _ _ id h consistent => h.okById consistent id msg) h consistent
        t.collectStageIds).1.terminals_le
  · rw [if_pos (h.isFinished.mpr isOpen)]
    exact h.terminals_le

theorem performSkip (h : Tracks head old (t, w) m) (consistent : m.Consistent) (msg : String) :
    (t.performSkip msg w).2.terminals head ≤ old.countP Mark.terminal + 1 := by
  unfold Task.performSkip
  by_cases isOpen : m.outcome = .undecided
  · rw [h.open_of_undecided isOpen, if_neg Bool.false_ne_true]
    exact (forIds (fun _ _ _ id h consistent => h.skipById consistent id msg) h consistent
      t.collectStageIds).1.terminals_le
  · rw [if_pos (h.isFinished.mpr isOpen)]
    exact h.terminals_le

theorem performFail (h : Tracks head old (t, w) m) (consistent : m.Consistent)
    (error : ErrorReport) (isOpen : m.outcome = .undecided) :
    (t.performFail error w).2.terminals head =
      old.countP Mark.terminal + if t.collectStageIds = [] then 1 else 2 := by
  have ids : t.collectStageIds = m.ids := h.ids (by simp [isOpen])
  have failed := (forIds (fun _ _ _ id h consistent => h.failById consistent id error) h
    consistent m.ids).1
  have outcome := StatusMap.putAll_fail_outcome isOpen
  have count := failed.terminals
  unfold Task.performFail
  rw [h.open_of_undecided isOpen, if_neg Bool.false_ne_true, ids]
  rw [Screen.terminals] at count
  rw [Screen.terminals, Screen.marksOf_eq_append (Task.marks_setFailedAndClear _ _ _),
    List.countP_append, count, outcome, failed.key]
  by_cases empty : m.ids = [] <;> simp [empty, Mark.terminal]

theorem consume_terminals (h : Tracks head old (t, w) m) (consistent : m.Consistent)
    (e : TaskEnd) :
    (Task.consume (t, w) e).2.terminals head ≤ old.countP Mark.terminal + 1 ↔
      ¬ e.FailsTwice t := by
  cases e with
  | ok msg => exact iff_of_true (h.performOk consistent msg) not_false
  | skip msg => exact iff_of_true (h.performSkip consistent msg) not_false
  | fail error =>
    by_cases isOpen : m.outcome = .undecided
    · have unfinished := h.open_of_undecided isOpen
      rw [Task.consume, h.performFail consistent error isOpen, TaskEnd.FailsTwice]
      by_cases empty : t.collectStageIds = [] <;> simp [unfinished, empty]
    · have finished : t.isFinished = true := h.isFinished.mpr isOpen
      have same : Task.consume (t, w) (.fail error) = (t, w) := by
        simp [Task.consume, Task.performFail, finished]
      rw [same]
      exact iff_of_true h.terminals_le (by simp [TaskEnd.FailsTwice, finished])

end Tracks

theorem Follows.marksOf_part {key : Part → Nat} {w : Screen} {s : TaskSequence × Screen}
    {m : Sequential} {autostart : Bool} (h : Follows key w.marks s m)
    (strict : m.Strict autostart)
    (injective : ∀ p q : Part, p.Valid m.stages → q.Valid m.stages → key p = key q → p = q)
    (part : Part) (valid : part.Valid m.stages) :
    s.2.marksOf (key part) = w.marksOf (key part) ++ m.recordsOf part := by
  rw [Screen.marksOf_eq_append h.inner.marks, List.filter_map, List.map_map]
  have same : m.records.filter ((fun r : Nat × Mark => decide (r.1 = key part)) ∘
      fun r => (key r.1, r.2)) = m.records.filter (·.1 = part) := by
    apply List.filter_congr
    intro r member
    apply decide_eq_decide.mpr
    exact ⟨injective _ _ (strict.valid r member) valid, congrArg key⟩
  rw [same]
  rfl

theorem sequence_renders_root_once (name : String) (style : TaskStyle) (mode : RenderMode)
    (steps : List SequenceStep) (autostart autoIndent : Bool) (w : Screen) :
    ∃ start, ((TaskSequenceBuilder.new (TaskBuilder.new name style mode)).chain steps).launch
        autostart autoIndent w = some start ∧
      ∀ ops, ∃ s, Machine.run TaskSequence.step start ops = some s ∧
        s.2.terminals w.renderers ≤ w.terminals w.renderers + 1 := by
  obtain ⟨registered, -⟩ :=
    TaskSequenceBuilder.chain_registered (TaskSequenceBuilder.new_registered name style mode) steps
  obtain ⟨start, key, launched, injective, head, follows⟩ :=
    TaskSequenceBuilder.launch_follows registered autostart autoIndent w
  refine ⟨start, launched, fun ops => ?_⟩
  obtain ⟨s, reached, last, strict⟩ := follows.run (Sequential.start_strict _ autostart) ops
  refine ⟨s, reached, ?_⟩
  have stages := (Sequential.exec_stages _ ops).trans (Sequential.start_stages
    ((TaskSequenceBuilder.new (TaskBuilder.new name style mode)).chain steps).stageCounter autostart)
  have marks := last.marksOf_part strict (by rw [stages]; exact injective) .head trivial
  rw [head] at marks
  rw [Screen.terminals, Screen.terminals, marks, List.countP_append, strict.head]
  cases (exec Sequential.step _ ops).root with
  | none => simp
  | some mark => cases mark <;> simp [Mark.terminal]

/-- The outcome of the root is rendered at most once, unless a bulk `fail` ends
an open task that has stages. -/
theorem root_outcome_rendered_once_iff (w : Screen) (autoIndent : Bool) :
    (∀ b : TaskBuilder, ∃ start, b.start autoIndent w = some start ∧ ∀ ops : List TaskOp,
      let s := exec Task.step start ops
      s.1.renderer.key = w.renderers ∧
      s.2.terminals w.renderers ≤ w.terminals w.renderers + 1 ∧
      ∀ e : TaskEnd,
        (Task.consume s e).2.terminals w.renderers ≤ w.terminals w.renderers + 1 ↔
          ¬ e.FailsTwice s.1) ∧
    ∀ (name : String) (style : TaskStyle) (mode : RenderMode) (steps : List SequenceStep)
      (autostart : Bool),
      ∃ start, ((TaskSequenceBuilder.new (TaskBuilder.new name style mode)).chain steps).launch
          autostart autoIndent w = some start ∧
        ∀ ops, ∃ s, Machine.run TaskSequence.step start ops = some s ∧
          s.2.terminals w.renderers ≤ w.terminals w.renderers + 1 := by
  refine ⟨fun b => ?_, fun name style mode steps autostart =>
    sequence_renders_root_once name style mode steps autostart autoIndent w⟩
  obtain ⟨start, started, tracks⟩ := b.start_tracks autoIndent w
  refine ⟨start, started, fun ops => ?_⟩
  have h := tracks ops
  exact ⟨h.key, h.terminals_le,
    fun e => h.consume_terminals (b.statusMap_consistent ops) e⟩

/-- One stage, and a bulk `fail` at once. -/
theorem performFail_renders_root_twice :
    ∃ s, ((TaskBuilder.new "deploy" .plain .plain).withStage "db" "database" true).start false
        (Screen.new id) = some s ∧
      (Task.consume s (.fail (ErrorReport.new "stopped"))).2.marksOf s.1.renderer.key =
        [.fail, .fail] :=
  ⟨_, rfl, by decide⟩

end KnotOps.Terminal
