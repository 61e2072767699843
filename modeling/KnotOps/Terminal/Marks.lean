import KnotOps.Terminal.Sequence

/-! The milestones in the log of a screen.
A mark is a record that changes what a line stands for: the start of a stage or
a terminal record.  The marks of a screen, each with the key of its renderer,
are what the status of tasks and sequences is compared with; titles, waits,
separators and error reports leave none. -/

namespace KnotOps.Terminal

inductive Mark where
  | run (msg : Option String)
  | skip (msg : String)
  | success (msg : String)
  | fail
deriving DecidableEq, Repr

def Mark.terminal : Mark → Bool
  | run _ => false
  | _ => true

def Event.mark : Event → Option Mark
  | .run msg => some (.run msg)
  | .skip msg => some (.skip msg)
  | .success msg _ => some (.success msg)
  | .fail _ => some .fail
  | .title | .wait _ | .errorReport _ | .separator => none

namespace Screen

def marks (w : Screen) : List (Nat × Mark) :=
  w.log.filterMap fun r => r.event.mark.map (r.renderer.key, ·)

def marksOf (w : Screen) (key : Nat) : List Mark :=
  (w.marks.filter (·.1 = key)).map Prod.snd

theorem marksOf_eq_append {w w' : Screen} {added : List (Nat × Mark)}
    (h : w'.marks = w.marks ++ added) (key : Nat) :
    w'.marksOf key = w.marksOf key ++ (added.filter (·.1 = key)).map Prod.snd := by
  simp [marksOf, h]

@[simp] theorem marks_now (w : Screen) : w.now.2.marks = w.marks := rfl

@[simp] theorem marks_onMulti (w : Screen) (f : MultiProgress → MultiProgress) :
    (w.onMulti f).marks = w.marks := rfl

@[simp] theorem marks_withLayout (w : Screen) (layout : TaskLayout) :
    { w with layout }.marks = w.marks := rfl

@[simp] theorem marks_withRenderers (w : Screen) (renderers : Nat) :
    { w with renderers }.marks = w.marks := rfl

@[simp] theorem marks_turn (w : Screen) (r : TaskRenderer) (running : Bool) :
    (w.turn r running).marks = w.marks := rfl

@[simp] theorem log_turn (w : Screen) (r : TaskRenderer) (running : Bool) :
    (w.turn r running).log = w.log := rfl

theorem marks_record (w : Screen) (r : TaskRenderer) (event : Event) :
    (w.record r event).marks = w.marks ++ (event.mark.map (r.key, ·)).toList := by
  cases h : event.mark <;> simp [marks, record, h]

end Screen

namespace TaskRenderer

variable (r : TaskRenderer) (w : Screen)

@[simp] theorem marks_onBar (call : MultiProgress → LayoutNode → MultiProgress) :
    (r.onBar call w).marks = w.marks := by
  unfold onBar
  split <;> simp

@[simp] theorem marks_shownDuration (start : Instant) :
    (r.shownDuration start w).2.marks = w.marks := by
  cases h : r.strategy <;> simp [shownDuration, formatDuration, h]

@[simp] theorem marks_title : (r.title w).marks = w.marks := by
  simp [title, Screen.marks_record, Event.mark]

@[simp] theorem marks_wait (msg : Option String) : (r.wait msg w).marks = w.marks := by
  simp [wait, Screen.marks_record, Event.mark]

@[simp] theorem marks_separator : (r.separator w).marks = w.marks := by
  simp [separator, Screen.marks_record, Event.mark]

@[simp] theorem marks_run (msg : Option String) :
    (r.run msg w).marks = w.marks ++ [(r.key, .run msg)] := by
  simp [run, Screen.marks_record, Event.mark]

@[simp] theorem marks_skip (msg : String) :
    (r.skip msg w).marks = w.marks ++ [(r.key, .skip msg)] := by
  simp [skip, Screen.marks_record, Event.mark]

@[simp] theorem marks_success (msg : String) (start : Instant) :
    (r.success msg start w).marks = w.marks ++ [(r.key, .success msg)] := by
  simp [success, Screen.marks_record, Event.mark]

@[simp] theorem marks_fail (start : Instant) :
    (r.fail start w).marks = w.marks ++ [(r.key, .fail)] := by
  simp [fail, Screen.marks_record, Event.mark]

@[simp] theorem marks_failInsert (error : ErrorReport) (start : Instant) :
    (r.failInsert error start w).2.marks = w.marks ++ [(r.key, .fail)] := by
  unfold failInsert
  split <;> simp [Screen.marks_record, Event.mark]

@[simp] theorem key_failInsert (error : ErrorReport) (start : Instant) :
    (r.failInsert error start w).1.key = r.key := by
  unfold failInsert
  split <;> rfl

@[simp] theorem marks_finishSilently : (r.finishSilently w).marks = w.marks := by
  unfold finishSilently
  split <;> simp

@[simp] theorem marks_clear : (r.clear w).2.2.marks = w.marks := by
  unfold clear
  split <;> simp

end TaskRenderer

namespace Stage

variable (s : Stage) (w : Screen)

@[simp] theorem marks_start : (s.start w).2.marks = w.marks := by
  unfold start
  split <;> simp

@[simp] theorem marks_run (msg : Option String) :
    (s.run msg w).marks = w.marks ++ [(s.renderer.key, .run msg)] :=
  s.renderer.marks_run w msg

@[simp] theorem marks_skip (msg : String) :
    (s.skip msg w).marks = w.marks ++ [(s.renderer.key, .skip msg)] :=
  s.renderer.marks_skip w msg

@[simp] theorem marks_success (msg : String) :
    (s.success msg w).marks = w.marks ++ [(s.renderer.key, .success msg)] := by
  simp [success]

@[simp] theorem marks_fail (error : ErrorReport) :
    (s.fail error w).2.marks = w.marks ++ [(s.renderer.key, .fail)] := by
  simp [fail]

@[simp] theorem key_fail (error : ErrorReport) :
    (s.fail error w).1.renderer.key = s.renderer.key := by
  simp [fail]

end Stage

@[simp] theorem marks_clearEntries (entries : List TaskEntry) (w : Screen) :
    (clearEntries entries w).2.marks = w.marks := by
  induction entries generalizing w with
  | nil => rfl
  | cons entry rest ih => simp [clearEntries, ih]

namespace Task

variable (t : Task) (w : Screen)

@[simp] theorem clearChildren_fst : (t.clearChildren w).1 = { t with entries := [] } := rfl

@[simp] theorem marks_clearChildren : (t.clearChildren w).2.marks = w.marks := by
  unfold clearChildren
  cases t.renderer.strategy <;> simp

@[simp] theorem marks_finishChildren : (t.finishChildren w).marks = w.marks := by
  unfold finishChildren
  generalize t.entries = entries
  induction entries generalizing w with
  | nil => rfl
  | cons entry rest ih => simp [ih]

theorem setCompleted_of_finished (msg : String) (h : t.isFinished = true) :
    t.setCompleted msg w = (t, w) := by
  simp [setCompleted, h]

theorem setCompleted_fst (msg : String) (h : t.isFinished = false) :
    (t.setCompleted msg w).1 = { t with isFinished := true, entries := [] } := by
  simp [setCompleted, h]

theorem marks_setCompleted (msg : String) (h : t.isFinished = false) :
    (t.setCompleted msg w).2.marks = w.marks ++ [(t.renderer.key, .success msg)] := by
  simp [setCompleted, h]

@[simp] theorem setFailedAndFreeze_fst :
    (t.setFailedAndFreeze w).1 = { t with isFinished := true } := rfl

@[simp] theorem marks_setFailedAndFreeze :
    (t.setFailedAndFreeze w).2.marks = w.marks ++ [(t.renderer.key, .fail)] := by
  simp [setFailedAndFreeze]

@[simp] theorem marks_setFailedAndClear (error : ErrorReport) :
    (t.setFailedAndClear error w).2.marks = w.marks ++ [(t.renderer.key, .fail)] := by
  simp [setFailedAndClear, setFailedAndInsert]

theorem updateState_of_finished (h : t.isFinished = true) :
    t.updateState w = (false, t, w) := by
  simp [updateState, h]

theorem updateState_of_failed (h : t.isFinished = false) (failed : t.failedStages.Nonempty) :
    t.updateState w = (true, t.setFailedAndFreeze w) := by
  simp [updateState, h, failed]

theorem updateState_of_all (h : t.isFinished = false) (failed : t.failedStages = ∅)
    (all : ∀ s ∈ t.stageIterator, s.id ∈ t.finishedStages) :
    t.updateState w = (true, t.setCompleted "success" w) := by
  have allTrue : t.stageIterator.all (·.id ∈ t.finishedStages) = true := by
    simpa using all
  simp [updateState, h, failed, allTrue]

theorem updateState_of_open (h : t.isFinished = false) (failed : t.failedStages = ∅)
    {s : Stage} (member : s ∈ t.stageIterator) (unfinished : s.id ∉ t.finishedStages) :
    t.updateState w = (true, t, w) := by
  have notAll : t.stageIterator.all (·.id ∈ t.finishedStages) = false := by
    simpa using ⟨s, member, unfinished⟩
  simp [updateState, h, failed, notAll]

theorem getStage_eq_none {id : String} : t.getStage id = none ↔ id ∉ t.collectStageIds := by
  simp [getStage, collectStageIds]

theorem mem_of_getStage {id : String} {s : Stage} (found : t.getStage id = some s) :
    id ∈ t.collectStageIds := by
  by_contra absent
  simp [t.getStage_eq_none.mpr absent] at found

theorem getStage_eq_some {id : String} {s : Stage} (found : t.getStage id = some s) :
    s.id = id ∧ s ∈ t.stageIterator :=
  ⟨by simpa using List.find?_some found, List.mem_of_find?_eq_some found⟩

end Task

end KnotOps.Terminal
