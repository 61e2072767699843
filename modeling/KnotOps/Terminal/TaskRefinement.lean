import KnotOps.Terminal.Start
import KnotOps.Terminal.StatusMap

/-! Tasks refine status maps.
`Tracks` ties a task and its screen to a status map.  An operation by id first
touches its stage and the two sets, which `set` mirrors, and then evaluates the
root, which `settle` mirrors; bulk runs and whole runs follow by iteration. -/

namespace KnotOps.Terminal

open Machine

def Outcome.marks : Outcome → List Mark
  | .undecided => []
  | .completed => [.success "success"]
  | .failed => [.fail]

theorem map_replaceStage {β : Type} (f : TaskEntry → β) (s : Stage) {id : String} {old : Stage}
    {entries : List TaskEntry}
    (found : (entries.filterMap TaskEntry.stage?).find? (·.id = id) = some old)
    (same : f (.stage s) = f (.stage old)) :
    (replaceStage id s entries).map f = entries.map f := by
  obtain ⟨before, after, split, replaced⟩ := replaceStage_split found
  rw [replaced, split, List.map_append, List.map_append, List.map_cons, List.map_cons, same]

namespace Task

theorem collectStageIds_eq (t : Task) :
    t.collectStageIds = (t.entries.map fun e => e.stage?.map (·.id)).reduceOption := by
  change _ = List.filterMap id _
  rw [collectStageIds, stageIterator, List.map_filterMap, List.filterMap_map]
  rfl

/-- An operation on a stage id: the one mark it leaves on the stage, and the
status that its changes of the two sets stand for. -/
structure StageOp (id : String) (status : Status) (mark : Mark)
    (act : Stage → Screen → Stage × Screen) (finished failed : Finset String → Finset String) :
    Prop where
  id_act : ∀ s w, (act s w).1.id = s.id
  key_act : ∀ s w, (act s w).1.renderer.key = s.renderer.key
  marks_act : ∀ s w, (act s w).2.marks = w.marks ++ [(s.renderer.key, mark)]
  mem_finished : ∀ ids x, x ∈ finished ids ↔ if x = id then status.Finished else x ∈ ids
  mem_failed : ∀ ids x, x ∈ failed ids ↔ if x = id then status = .fail else x ∈ ids

theorem mem_erase_iff_ite {ids : Finset String} {id x : String} :
    x ∈ ids.erase id ↔ if x = id then False else x ∈ ids := by
  by_cases same : x = id <;> simp [same]

theorem mem_insert_iff_ite {ids : Finset String} {id x : String} :
    x ∈ insert id ids ↔ if x = id then True else x ∈ ids := by
  by_cases same : x = id <;> simp [same]

theorem runById_op (id : String) (msg : Option String) :
    StageOp id .running (.run msg)
      (fun s w => ({ s with startTime := some w.now.1 }, s.run msg w.now.2))
      (·.erase id) (·.erase id) where
  id_act _ _ := rfl
  key_act _ _ := rfl
  marks_act s w := by simp
  mem_finished _ _ := mem_erase_iff_ite
  mem_failed _ _ := by rw [mem_erase_iff_ite]; simp

theorem okById_op (id msg : String) :
    StageOp id .ok (.success msg) (fun s w => (s, s.success msg w)) (insert id) (·.erase id) where
  id_act _ _ := rfl
  key_act _ _ := rfl
  marks_act s w := by simp
  mem_finished _ _ := mem_insert_iff_ite
  mem_failed _ _ := by rw [mem_erase_iff_ite]; simp

theorem skipById_op (id msg : String) :
    StageOp id .skip (.skip msg) (fun s w => (s, s.skip msg w)) (insert id) (·.erase id) where
  id_act _ _ := rfl
  key_act _ _ := rfl
  marks_act s w := by simp
  mem_finished _ _ := mem_insert_iff_ite
  mem_failed _ _ := by rw [mem_erase_iff_ite]; simp

theorem failById_op (id : String) (report : ErrorReport) :
    StageOp id .fail .fail (fun s w => s.fail report w) (·.erase id) (insert id) where
  id_act _ _ := rfl
  key_act _ _ := by simp
  marks_act s w := by simp
  mem_finished _ _ := mem_erase_iff_ite
  mem_failed _ _ := by rw [mem_insert_iff_ite]; simp

end Task

/-- The task and its screen show the status map; `head` is the key of the head
renderer, and `old` are the marks it had before the task was built. -/
structure Tracks (head : Nat) (old : List Mark) (s : Task × Screen) (m : StatusMap String) :
    Prop where
  key : s.1.renderer.key = head
  entries : m.outcome = .completed → s.1.entries = []
  ids : m.outcome ≠ .completed → s.1.collectStageIds = m.ids
  finished : ∀ id, id ∈ s.1.finishedStages ↔ m.Finished id
  failed : ∀ id, id ∈ s.1.failedStages ↔ m.status id = some .fail
  isFinished : s.1.isFinished = true ↔ m.outcome ≠ .undecided
  root : s.2.marksOf head = old ++ m.outcome.marks
  keys : ∀ e ∈ s.1.entries, e.renderer.key ≠ head

namespace Tracks

variable {head : Nat} {old : List Mark} {t : Task} {w : Screen} {m : StatusMap String}

theorem open_of_undecided (h : Tracks head old (t, w) m) (isOpen : m.outcome = .undecided) :
    t.isFinished = false := by
  have notFinished : ¬ t.isFinished = true := fun closed => h.isFinished.mp closed isOpen
  simpa using notFinished

theorem undecided (h : Tracks head old (t, w) m) (unfinished : t.isFinished = false) :
    m.outcome = .undecided := by
  by_contra decided
  have finished : t.isFinished = true := h.isFinished.mpr decided
  rw [unfinished] at finished
  cases finished

theorem updateState (h : Tracks head old (t, w) m) {status : Status}
    (fails : m.outcome = .undecided → (t.failedStages.Nonempty ↔ status = .fail)) :
    Tracks head old (t.updateState w).2 (m.settle status) := by
  by_cases isOpen : m.outcome = .undecided
  · have unfinished := h.open_of_undecided isOpen
    have ids : t.collectStageIds = m.ids := h.ids (by simp [isOpen])
    have key : t.renderer.key = head := h.key
    have root : w.marksOf head = old := by simpa [isOpen, Outcome.marks] using h.root
    by_cases failing : status = .fail
    · rw [t.updateState_of_failed w unfinished ((fails isOpen).mpr failing), failing]
      have settled := StatusMap.settle_fail isOpen
      refine ⟨key, by simp [settled], fun _ => ids, h.finished, h.failed, by simp [settled], ?_,
        h.keys⟩
      rw [Screen.marksOf_eq_append (t.marks_setFailedAndFreeze w), settled]
      simp [root, key, Outcome.marks]
    · have noFailed : t.failedStages = ∅ :=
        Finset.not_nonempty_iff_eq_empty.mp fun some => failing ((fails isOpen).mp some)
      by_cases all : ∀ id ∈ m.ids, m.Finished id
      · have settled := StatusMap.settle_all isOpen failing all
        have every : ∀ s ∈ t.stageIterator, s.id ∈ t.finishedStages := fun s member =>
          (h.finished s.id).mpr (all s.id (ids ▸ List.mem_map_of_mem member))
        rw [t.updateState_of_all w unfinished noFailed every]
        have first := t.setCompleted_fst w "success" unfinished
        refine ⟨?_, fun _ => by rw [first], by simp [settled], ?_, ?_, ?_, ?_, ?_⟩
        · rw [first]; exact key
        · rw [first]; exact h.finished
        · rw [first]; exact h.failed
        · rw [first]; simp [settled]
        · rw [Screen.marksOf_eq_append (t.marks_setCompleted w "success" unfinished), settled]
          simp [root, key, Outcome.marks]
        · rw [first]; simp
      · push Not at all
        have settled := StatusMap.settle_some isOpen failing all
        obtain ⟨id, member, open_id⟩ := all
        obtain ⟨s, inStages, rfl⟩ := List.mem_map.mp (ids ▸ member)
        rw [t.updateState_of_open w unfinished noFailed inStages
          fun finished => open_id ((h.finished s.id).mp finished)]
        exact ⟨key, by simp [settled], fun _ => ids, h.finished, h.failed,
          by simp [settled, unfinished], by simpa [settled, Outcome.marks] using root, h.keys⟩
  · have closed : t.isFinished = true := h.isFinished.mpr isOpen
    rw [StatusMap.settle_of_decided isOpen, t.updateState_of_finished w closed]
    exact h

theorem touch (h : Tracks head old (t, w) m) (live : m.outcome ≠ .completed) {id : String}
    {status : Status} {mark : Mark} {act : Stage → Screen → Stage × Screen}
    {finished failed : Finset String → Finset String}
    (op : Task.StageOp id status mark act finished failed) {stage : Stage}
    (found : t.getStage id = some stage) :
    Tracks head old
      ({ t with
          entries := replaceStage id (act stage w).1 t.entries
          finishedStages := finished t.finishedStages
          failedStages := failed t.failedStages }, (act stage w).2)
      (m.set id status) := by
  have sameIds := map_replaceStage (fun e => e.stage?.map (·.id)) (act stage w).1 found
    (by simp [TaskEntry.stage?, op.id_act])
  have sameKeys := map_replaceStage (·.renderer.key) (act stage w).1 found
    (op.key_act stage w)
  have member : TaskEntry.stage stage ∈ t.entries := by
    obtain ⟨e, inEntries, is_stage⟩ :=
      List.mem_filterMap.mp (t.getStage_eq_some found).2
    cases e with
    | extra r => simp [TaskEntry.stage?] at is_stage
    | stage s => exact Option.some.inj is_stage ▸ inEntries
  have otherKey : stage.renderer.key ≠ head := h.keys _ member
  refine ⟨h.key, fun completed => absurd completed live, fun _ => ?_, ?_, ?_, h.isFinished, ?_, ?_⟩
  · have kept : t.collectStageIds = m.ids := h.ids live
    rw [Task.collectStageIds_eq] at kept ⊢
    rw [sameIds]
    exact kept
  · intro x
    rw [op.mem_finished, StatusMap.set_finished, h.finished]
  · intro x
    rw [op.mem_failed, StatusMap.set_status, h.failed]
    split <;> simp
  · rw [Screen.marksOf_eq_append (op.marks_act stage w)]
    simpa [otherKey] using h.root
  · intro e inEntries
    have key : e.renderer.key ∈ t.entries.map (·.renderer.key) :=
      sameKeys ▸ List.mem_map_of_mem inEntries
    obtain ⟨e', inOld, same⟩ := List.mem_map.mp key
    rw [← same]
    exact h.keys e' inOld

theorem onStage (h : Tracks head old (t, w) m) (consistent : m.Consistent) {id : String}
    {status : Status} {mark : Mark} {act : Stage → Screen → Stage × Screen}
    {finished failed : Finset String → Finset String}
    (op : Task.StageOp id status mark act finished failed) :
    Tracks head old (t.onStage id act finished failed w).2 (m.put id status) := by
  cases found : t.getStage id with
  | none =>
    have unknown : ¬ m.Known id := fun known =>
      t.getStage_eq_none.mp found (h.ids known.1 ▸ known.2)
    rw [StatusMap.put_of_unknown unknown]
    simpa [Task.onStage, found] using h
  | some stage =>
    have listed := t.mem_of_getStage found
    have live : m.outcome ≠ .completed := fun completed => by
      have noEntries : t.entries = [] := h.entries completed
      simp [Task.collectStageIds, Task.stageIterator, noEntries] at listed
    rw [StatusMap.put_of_known ⟨live, h.ids live ▸ listed⟩]
    simp only [Task.onStage, found]
    refine (h.touch live op found).updateState fun isOpen => ?_
    have noneFailed : ∀ x, x ∉ t.failedStages := fun x failed =>
      consistent.noFailure isOpen x ((h.failed x).mp failed)
    constructor
    · rintro ⟨x, member⟩
      rw [op.mem_failed] at member
      by_cases same : x = id
      · simpa [same] using member
      · exact absurd (by simpa [same] using member) (noneFailed x)
    · intro fails
      exact ⟨id, (op.mem_failed _ _).mpr (by simpa using fails)⟩

theorem runById (h : Tracks head old (t, w) m) (consistent : m.Consistent) (id : String)
    (msg : Option String) : Tracks head old (t.runById id msg w).2 (m.put id .running) :=
  h.onStage consistent (Task.runById_op id msg)

theorem okById (h : Tracks head old (t, w) m) (consistent : m.Consistent) (id msg : String) :
    Tracks head old (t.okById id msg w).2 (m.put id .ok) :=
  h.onStage consistent (Task.okById_op id msg)

theorem failById (h : Tracks head old (t, w) m) (consistent : m.Consistent) (id : String)
    (report : ErrorReport) : Tracks head old (t.failById id report w).2 (m.put id .fail) :=
  h.onStage consistent (Task.failById_op id report)

theorem skipById (h : Tracks head old (t, w) m) (consistent : m.Consistent) (id msg : String) :
    Tracks head old (t.skipById id msg w).2 (m.put id .skip) :=
  h.onStage consistent (Task.skipById_op id msg)

theorem forIds {op : Task → String → Screen → Bool × Task × Screen} {status : Status}
    (follows : ∀ t w m id, Tracks head old (t, w) m → m.Consistent →
      Tracks head old (op t id w).2 (m.put id status))
    (h : Tracks head old (t, w) m) (consistent : m.Consistent) (ids : List String) :
    Tracks head old (Task.forIds op ids t w) (m.putAll status ids) ∧
      (m.putAll status ids).Consistent :=
  exec_simulates (fun s m => Tracks head old s m ∧ m.Consistent)
    (fun s m id rel =>
      ⟨follows s.1 s.2 m id rel.1 rel.2, StatusMap.put_consistent rel.2 id status⟩)
    ⟨h, consistent⟩ ids

theorem forIds_run (h : Tracks head old (t, w) m) (consistent : m.Consistent) (msg : Option String)
    (ids : List String) :
    Tracks head old (Task.forIds (fun t id w => t.runById id msg w) ids t w) (m.putAll .running ids) ∧
      (m.putAll .running ids).Consistent :=
  forIds (fun _ _ _ id h consistent => h.runById consistent id msg) h consistent ids

theorem performRun (h : Tracks head old (t, w) m) (consistent : m.Consistent) (msg : Option String) :
    Tracks head old (t.performRun msg w) m.runAll := by
  unfold Task.performRun StatusMap.runAll
  by_cases isOpen : m.outcome = .undecided
  · rw [h.open_of_undecided isOpen, if_neg Bool.false_ne_true, if_pos isOpen]
    have ids : t.collectStageIds = m.ids := h.ids (by simp [isOpen])
    rw [ids]
    exact (h.forIds_run consistent msg m.ids).1
  · rw [if_pos (h.isFinished.mpr isOpen), if_neg isOpen]
    exact h

theorem step {s : Task × Screen} (h : Tracks head old s m) (consistent : m.Consistent) (op : TaskOp) :
    Tracks head old (Task.step s op) (m.step op) := by
  cases op with
  | runById id msg => exact h.runById consistent id msg
  | okById id msg => exact h.okById consistent id msg
  | failById id report => exact h.failById consistent id report
  | skipById id msg => exact h.skipById consistent id msg
  | run msg => exact h.performRun consistent msg

end Tracks

def TaskBuilder.statusMap (b : TaskBuilder) (ops : List TaskOp) : StatusMap String :=
  exec StatusMap.step
    ((StatusMap.blank (b.steps.filterMap BuilderStep.stageId)).putAll .running
      (b.steps.filterMap BuilderStep.autostartId)) ops

namespace TaskBuilder

theorem Fresh.tracks {b : TaskBuilder} {w w' : Screen} {task : Task}
    (fresh : Fresh b w task w') :
    Tracks w.renderers (w.marksOf w.renderers) (task, w')
      (StatusMap.blank (b.steps.filterMap BuilderStep.stageId)) where
  key := fresh.key
  entries completed := by simp [StatusMap.blank] at completed
  ids _ := fresh.ids
  finished id := by simp [fresh.finished, StatusMap.Finished, StatusMap.blank]
  failed id := by simp [fresh.failed, StatusMap.blank]
  isFinished := by simp [fresh.isFinished, StatusMap.blank]
  root := by
    have same : w'.marks = w.marks ++ [] := by simp [fresh.marks]
    rw [Screen.marksOf_eq_append same]
    rfl
  keys e member := by
    have key : e.renderer.key ∈ List.range' (w.renderers + 1) task.entries.length :=
      fresh.keys ▸ List.mem_map_of_mem member
    rw [List.mem_range'_1] at key
    omega

theorem statusMap_consistent (b : TaskBuilder) (ops : List TaskOp) :
    (b.statusMap ops).Consistent :=
  exec_invariant StatusMap.Consistent (fun _ op inv => StatusMap.step_consistent inv op)
    (StatusMap.putAll_consistent (StatusMap.blank_consistent _) _ _) ops

theorem start_tracks (b : TaskBuilder) (autoIndent : Bool) (w : Screen) :
    ∃ s, b.start autoIndent w = some s ∧
      ∀ ops, Tracks w.renderers (w.marksOf w.renderers) (exec Task.step s ops) (b.statusMap ops) := by
  obtain ⟨task, w', fresh, started⟩ := start_spec b autoIndent w
  have autostarted := fresh.tracks.forIds_run (StatusMap.blank_consistent _) none
    (b.steps.filterMap BuilderStep.autostartId)
  refine ⟨_, started, fun ops => ?_⟩
  exact (exec_simulates (fun s m => Tracks w.renderers (w.marksOf w.renderers) s m ∧ m.Consistent)
    (fun _ _ op rel => ⟨rel.1.step rel.2 op, StatusMap.step_consistent rel.2 op⟩)
    autostarted ops).1

end TaskBuilder

namespace Tracks

variable {head : Nat} {old : List Mark} {s : Task × Screen} {m : StatusMap String}

theorem disjoint (h : Tracks head old s m) : Disjoint s.1.finishedStages s.1.failedStages := by
  rw [Finset.disjoint_left]
  intro id finished failed
  obtain ⟨status, is_status, ok⟩ := (h.finished id).mp finished
  rw [(h.failed id).mp failed, Option.mem_some_iff] at is_status
  exact absurd ok (is_status ▸ not_false)

theorem of_unfinished (h : Tracks head old s m) (consistent : m.Consistent)
    (unfinished : s.1.isFinished = false) :
    s.1.failedStages = ∅ ∧
      (s.1.collectStageIds ≠ [] → ∃ id ∈ s.1.collectStageIds, id ∉ s.1.finishedStages) := by
  have isOpen := h.undecided unfinished
  have ids : s.1.collectStageIds = m.ids := h.ids (by simp [isOpen])
  constructor
  · apply Finset.eq_empty_of_forall_notMem
    intro id failed
    exact consistent.noFailure isOpen id ((h.failed id).mp failed)
  · intro nonempty
    obtain ⟨id, member, open_id⟩ := consistent.someOpen isOpen (ids ▸ nonempty)
    exact ⟨id, ids ▸ member, fun finished => open_id ((h.finished id).mp finished)⟩

theorem getStage_of_completed (h : Tracks head old s m) (completed : m.outcome = .completed)
    (id : String) : s.1.getStage id = none := by
  rw [Task.getStage, Task.stageIterator, h.entries completed]
  rfl

end Tracks

/-- A started task refines its status map over every list of operations, and a
decided outcome stays. -/
theorem task_refines_statusMap (b : TaskBuilder) (autoIndent : Bool) (w : Screen) :
    ∃ start, b.start autoIndent w = some start ∧ ∀ ops : List TaskOp,
      let s := exec Task.step start ops
      let m := b.statusMap ops
      Tracks w.renderers (w.marksOf w.renderers) s m ∧
      Disjoint s.1.finishedStages s.1.failedStages ∧
      (s.1.isFinished = false →
        s.1.failedStages = ∅ ∧
        (s.1.collectStageIds ≠ [] → ∃ id ∈ s.1.collectStageIds, id ∉ s.1.finishedStages)) ∧
      (m.outcome ≠ .undecided →
        ∀ more, (b.statusMap (ops ++ more)).outcome = m.outcome) ∧
      (m.outcome = .completed → ∀ id msg msg? report,
        s.1.runById id msg? s.2 = (false, s) ∧ s.1.okById id msg s.2 = (false, s) ∧
        s.1.failById id report s.2 = (false, s) ∧ s.1.skipById id msg s.2 = (false, s)) := by
  obtain ⟨start, started, tracks⟩ := b.start_tracks autoIndent w
  refine ⟨start, started, fun ops => ?_⟩
  have h := tracks ops
  have consistent := b.statusMap_consistent ops
  refine ⟨h, h.disjoint, h.of_unfinished consistent, fun decided more => ?_,
    fun completed id msg msg? report => ?_⟩
  · rw [TaskBuilder.statusMap, exec_append]
    exact StatusMap.exec_outcome decided more
  · have missing := h.getStage_of_completed completed id
    simp only [Task.runById, Task.okById, Task.failById, Task.skipById, Task.onStage, missing,
      and_self]

end KnotOps.Terminal
