import KnotOps.Terminal.Marks

/-! What `start` builds from a builder script: the entries in the order of the
steps, under consecutive renderer keys, with no mark on the screen before the
stages that run at once are started. -/

namespace KnotOps.Terminal

namespace BuilderStep

def stageId : BuilderStep → Option String
  | stage id _ _ => some id
  | group _ => none

def autostartId : BuilderStep → Option String
  | stage id _ true => some id
  | _ => none

end BuilderStep

namespace TaskRenderer

@[simp] theorem renderers_wait (r : TaskRenderer) (msg : Option String) (w : Screen) :
    (r.wait msg w).renderers = w.renderers := rfl

@[simp] theorem renderers_title (r : TaskRenderer) (w : Screen) :
    (r.title w).renderers = w.renderers := rfl

@[simp] theorem renderers_separator (r : TaskRenderer) (w : Screen) :
    (r.separator w).renderers = w.renderers := by
  unfold separator onBar
  split <;> rfl

end TaskRenderer

namespace TaskBuilder

variable (b : TaskBuilder)

theorem createHeadRenderer_spec (w : Screen) :
    (b.createHeadRenderer w).1.key = w.renderers ∧
    (b.createHeadRenderer w).2.2.renderers = w.renderers + 1 ∧
    (b.createHeadRenderer w).2.2.marks = w.marks ∧
    (b.mode = .interactive → (b.createHeadRenderer w).2.1.isSome) := by
  cases h : b.mode <;> simp [createHeadRenderer, TaskRenderer.new, Screen.marks, h]

theorem createChildRenderer_spec (childName : String) {point : Option LayoutNode}
    (indentSpaces : Nat) (w : Screen) (present : b.mode = .interactive → point.isSome) :
    ∃ r next w', b.createChildRenderer childName point indentSpaces w = some (r, next, w') ∧
      r.key = w.renderers ∧ w'.renderers = w.renderers + 1 ∧ w'.marks = w.marks ∧
      (b.mode = .interactive → next.isSome) := by
  cases h : b.mode with
  | plain => simp [createChildRenderer, TaskRenderer.new, h]
  | interactive =>
    obtain ⟨node, rfl⟩ := Option.isSome_iff_exists.mp (present h)
    simp [createChildRenderer, TaskRenderer.new, Screen.marks, h]

structure Progress (base : Nat) (marks : List (Nat × Mark)) (done : List BuilderStep)
    (s : Building) : Prop where
  point : b.mode = .interactive → s.insertionPoint.isSome
  ids : (s.entries.filterMap TaskEntry.stage?).map (·.id) = done.filterMap BuilderStep.stageId
  keys : s.entries.map (·.renderer.key) = List.range' base s.entries.length
  renderers : s.screen.renderers = base + s.entries.length
  marks : s.screen.marks = marks
  autostart : s.autostart = done.filterMap BuilderStep.autostartId

variable {b} {base : Nat} {marks : List (Nat × Mark)} {done : List BuilderStep} {s : Building}

theorem Progress.keys_concat (h : b.Progress base marks done s) {entry : TaskEntry}
    (key : entry.renderer.key = s.screen.renderers) :
    (s.entries ++ [entry]).map (·.renderer.key) =
      List.range' base (s.entries ++ [entry]).length := by
  rw [List.map_append, h.keys, List.length_append, List.length_singleton,
    List.range'_1_concat, List.map_singleton, key, h.renderers]

theorem addStep_progress (h : b.Progress base marks done s) (step : BuilderStep) :
    ∃ next, b.addStep s step = some next ∧ b.Progress base marks (done ++ [step]) next := by
  cases step with
  | stage id name autoRun =>
    obtain ⟨r, point, w, created, key, renderers, sameMarks, present⟩ :=
      b.createChildRenderer_spec name childIndentSpaces s.screen h.point
    refine ⟨_, by rw [addStep, created]; rfl, ?_⟩
    refine ⟨present, ?_, h.keys_concat key, ?_, ?_, ?_⟩
    · simp [h.ids, TaskEntry.stage?, Stage.new, BuilderStep.stageId]
    · simp [renderers, h.renderers, Nat.add_assoc]
    · simp [sameMarks, h.marks]
    · cases autoRun <;> simp [h.autostart, BuilderStep.autostartId]
  | group header =>
    obtain ⟨r, point, w, created, key, renderers, sameMarks, present⟩ :=
      b.createChildRenderer_spec (header.getD "") childIndentSpaces s.screen h.point
    refine ⟨_, by rw [addStep, created]; rfl, ?_⟩
    refine ⟨present, ?_, h.keys_concat key, ?_, ?_, ?_⟩
    · simp [h.ids, List.filterMap_cons, TaskEntry.stage?, BuilderStep.stageId]
    · simp [renderers, h.renderers, Nat.add_assoc]
    · simp [sameMarks, h.marks]
    · simp [h.autostart, BuilderStep.autostartId]

theorem addSteps_progress (h : b.Progress base marks done s) (steps : List BuilderStep) :
    ∃ next, steps.foldlM b.addStep s = some next ∧
      b.Progress base marks (done ++ steps) next := by
  induction steps generalizing done s with
  | nil => exact ⟨s, rfl, by simpa using h⟩
  | cons step steps ih =>
    obtain ⟨mid, added, mid_progress⟩ := addStep_progress h step
    obtain ⟨next, built, progress⟩ := ih mid_progress
    refine ⟨next, ?_, by simpa using progress⟩
    rw [List.foldlM_cons, added]
    exact built

theorem applyAutoIndent_progress (h : b.Progress base marks done s) :
    ∃ next, b.applyAutoIndent s = some next ∧ b.Progress base marks done next := by
  cases mode : b.mode with
  | plain => exact ⟨s, by simp [applyAutoIndent, mode], h⟩
  | interactive =>
    obtain ⟨point, present⟩ := Option.isSome_iff_exists.mp (h.point mode)
    refine ⟨_, by simp only [applyAutoIndent, mode, present]; rfl, ?_⟩
    refine ⟨fun _ => rfl, ?_, h.keys_concat rfl, ?_, ?_, h.autostart⟩
    · simp [h.ids, List.filterMap_cons, TaskEntry.stage?]
    · simp [TaskRenderer.new, Screen.onMulti, h.renderers, Nat.add_assoc]
    · exact h.marks

theorem build_progress (autoIndent : Bool) {point : Option LayoutNode} (w : Screen)
    (present : b.mode = .interactive → point.isSome) :
    ∃ s, b.build autoIndent point w = some s ∧
      b.Progress w.renderers w.marks b.steps s := by
  have start : b.Progress w.renderers w.marks [] ⟨[], [], point, w⟩ :=
    ⟨present, rfl, rfl, rfl, rfl, rfl⟩
  obtain ⟨s, steps, progress⟩ := addSteps_progress start b.steps
  rw [List.nil_append] at progress
  unfold build
  rw [steps]
  cases autoIndent with
  | false => exact ⟨s, rfl, progress⟩
  | true => exact applyAutoIndent_progress progress

@[simp] theorem marks_placeAnchor (b : TaskBuilder) (point : Option LayoutNode) (w : Screen) :
    (b.placeAnchor point w).marks = w.marks := by
  unfold placeAnchor
  split <;> rfl

structure Fresh (b : TaskBuilder) (w : Screen) (task : Task) (w' : Screen) : Prop where
  key : task.renderer.key = w.renderers
  keys : task.entries.map (·.renderer.key) =
    List.range' (w.renderers + 1) task.entries.length
  ids : task.collectStageIds = b.steps.filterMap BuilderStep.stageId
  finished : task.finishedStages = ∅
  failed : task.failedStages = ∅
  isFinished : task.isFinished = false
  marks : w'.marks = w.marks

theorem start_spec (b : TaskBuilder) (autoIndent : Bool) (w : Screen) :
    ∃ task w', Fresh b w task w' ∧
      b.start autoIndent w = some (Task.forIds (fun t id w => t.runById id none w)
        (b.steps.filterMap BuilderStep.autostartId) task w') := by
  obtain ⟨key, renderers, marks, present⟩ := b.createHeadRenderer_spec w
  obtain ⟨s, built, progress⟩ := build_progress autoIndent
    ((b.createHeadRenderer w).1.title (b.createHeadRenderer w).2.2) present
  simp only [TaskRenderer.renderers_title, TaskRenderer.marks_title, renderers, marks] at progress
  refine ⟨_, _, ?_, by
    simp only [start, built, ← progress.autostart]; rfl⟩
  exact ⟨key, progress.keys, progress.ids, rfl, rfl, rfl, by
    simp [Task.new, progress.marks]⟩

end TaskBuilder

end KnotOps.Terminal
