import KnotOps.Terminal.Sequential
import KnotOps.Terminal.TaskRefinement

/-! Task sequences refine the sequential machine.
`Shows` ties the inner task and the screen to the machine: the marks are its
records, under the keys of the renderers, and while the root is open the
finished stages are the ones before the position.  The generated ids are
distinct, so that every lookup finds the stage at its position. -/

namespace KnotOps.Terminal

open Machine

namespace TaskSequenceBuilder

theorem stageId_injective {i j : Nat} (same : stageId i = stageId j) : i = j := by
  have digits : toString i = toString j := by
    simpa [stageId] using same
  have value (n : Nat) : Nat.ofDigitChars 10 (toString n).toList 0 = n := by
    simp [Nat.repr]
  rw [← value i, digits, value j]

end TaskSequenceBuilder

open TaskSequenceBuilder (stageId stageId_injective)

namespace Task

def table (t : Task) : List (String × Nat) :=
  t.stageIterator.map fun s => (s.id, s.renderer.key)

theorem table_eq (t : Task) :
    t.table = (t.entries.map fun e => e.stage?.map fun s => (s.id, s.renderer.key)).reduceOption := by
  change _ = List.filterMap id _
  rw [table, stageIterator, List.map_filterMap, List.filterMap_map]
  rfl

theorem onStage_of_found {t : Task} {id : String} {stage : Stage}
    (found : t.getStage id = some stage) (act : Stage → Screen → Stage × Screen)
    (finished failed : Finset String → Finset String) (w : Screen) :
    t.onStage id act finished failed w =
      { t with
        entries := replaceStage id (act stage w).1 t.entries
        finishedStages := finished t.finishedStages
        failedStages := failed t.failedStages }.updateState (act stage w).2 := by
  simp only [onStage, found]

end Task

structure Shows (key : Part → Nat) (old : List (Nat × Mark)) (s : Task × Screen)
    (m : Sequential) : Prop where
  marks : s.2.marks = old ++ m.records.map fun r => (key r.1, r.2)
  head : s.1.renderer.key = key .head
  isFinished : s.1.isFinished = m.root.isSome
  table : m.root = none ∨ m.position < m.stages →
    s.1.table = (List.range m.stages).map fun i => (stageId i, key (.stage i))
  finished : m.root = none → ∀ id, id ∈ s.1.finishedStages ↔ ∃ i < m.position, id = stageId i
  failed : m.root = none → s.1.failedStages = ∅

namespace Shows

variable {key : Part → Nat} {old : List (Nat × Mark)} {t : Task} {w : Screen} {m : Sequential}

theorem lookup (h : Shows key old (t, w) m) (inside : m.position < m.stages) :
    ∃ stage, t.getStage (stageId m.position) = some stage ∧
      stage.renderer.key = key (.stage m.position) := by
  have table : t.table = _ := h.table (.inr inside)
  have listed : stageId m.position ∈ t.collectStageIds := by
    have ids : t.collectStageIds = t.table.map Prod.fst := by
      simp [Task.collectStageIds, Task.table]
    rw [ids, table]
    simp only [List.map_map, List.mem_map, List.mem_range]
    exact ⟨m.position, inside, rfl⟩
  cases found : t.getStage (stageId m.position) with
  | none => exact absurd listed (t.getStage_eq_none.mp found)
  | some stage =>
    obtain ⟨same, member⟩ := t.getStage_eq_some found
    have row : (stage.id, stage.renderer.key) ∈ t.table := List.mem_map_of_mem member
    rw [table] at row
    obtain ⟨i, -, entry⟩ := List.mem_map.mp row
    obtain ⟨id, keys⟩ := Prod.mk.inj entry
    have here : i = m.position := stageId_injective (id.trans same)
    exact ⟨stage, rfl, by rw [← keys, here]⟩

variable {status : Status} {mark : Mark} {act : Stage → Screen → Stage × Screen}
  {finished failed : Finset String → Finset String}

structure Touched (key : Part → Nat) (old : List (Nat × Mark)) (m : Sequential)
    (status : Status) (mark : Mark) (t : Task) (w : Screen) : Prop where
  marks : w.marks = old ++ (m.push mark).records.map fun r => (key r.1, r.2)
  head : t.renderer.key = key .head
  isFinished : t.isFinished = m.root.isSome
  table : t.table = (List.range m.stages).map fun i => (stageId i, key (.stage i))
  finished : m.root = none → ∀ id, id ∈ t.finishedStages ↔
    if id = stageId m.position then status.Finished else ∃ i < m.position, id = stageId i
  failed : m.root = none → ∀ id, id ∈ t.failedStages ↔ id = stageId m.position ∧ status = .fail

theorem touch (h : Shows key old (t, w) m) (inside : m.position < m.stages)
    (op : Task.StageOp (stageId m.position) status mark act finished failed) :
    ∃ t' w', t.onStage (stageId m.position) act finished failed w = t'.updateState w' ∧
      Touched key old m status mark t' w' := by
  obtain ⟨stage, found, stageKey⟩ := h.lookup inside
  have sameTable := map_replaceStage (fun e => e.stage?.map fun s => (s.id, s.renderer.key))
    (act stage w).1 found (by simp [TaskEntry.stage?, op.id_act, op.key_act])
  have marks : w.marks = _ := h.marks
  have table : t.table = _ := h.table (.inr inside)
  refine ⟨_, _, Task.onStage_of_found found act finished failed w, ?_, h.head, h.isFinished, ?_,
    fun isOpen id => ?_, fun isOpen id => ?_⟩
  · rw [op.marks_act, marks, stageKey, Sequential.push, List.map_append, List.append_assoc]
    rfl
  · rw [Task.table_eq] at table ⊢
    rw [sameTable]
    exact table
  · rw [op.mem_finished, h.finished isOpen]
  · rw [op.mem_failed, h.failed isOpen]
    by_cases here : id = stageId m.position <;> simp [here]

namespace Touched

theorem unfinished (h : Touched key old m status mark t w) (isOpen : m.root = none) :
    t.isFinished = false := by
  rw [h.isFinished, isOpen]
  rfl

theorem failedStages (h : Touched key old m status mark t w) (isOpen : m.root = none)
    (notFail : status ≠ .fail) : t.failedStages = ∅ := by
  apply Finset.eq_empty_of_forall_notMem
  intro id failed
  exact notFail ((h.failed isOpen id).mp failed).2

theorem mem_stages (h : Touched key old m status mark t w) {i : Nat} (inside : i < m.stages) :
    ∃ s ∈ t.stageIterator, s.id = stageId i := by
  have row : (stageId i, key (.stage i)) ∈ t.table := by
    rw [h.table]
    exact List.mem_map_of_mem (List.mem_range.mpr inside)
  obtain ⟨s, member, entry⟩ := List.mem_map.mp row
  exact ⟨s, member, congrArg Prod.fst entry⟩

theorem stages (h : Touched key old m status mark t w) {s : Stage} (member : s ∈ t.stageIterator) :
    ∃ i < m.stages, s.id = stageId i := by
  have row : (s.id, s.renderer.key) ∈ t.table := List.mem_map_of_mem member
  rw [h.table] at row
  obtain ⟨i, inRange, entry⟩ := List.mem_map.mp row
  exact ⟨i, List.mem_range.mp inRange, (congrArg Prod.fst entry).symm⟩

theorem notMem (h : Touched key old m status mark t w) (isOpen : m.root = none) {i : Nat}
    (waiting : m.position < i) : stageId i ∉ t.finishedStages := by
  rw [h.finished isOpen]
  have other : stageId i ≠ stageId m.position := fun same => by
    have := stageId_injective same
    omega
  rw [if_neg other]
  intro ⟨j, before, same⟩
  have := stageId_injective same
  omega

theorem mem_passed (h : Touched key old m status mark t w) (isOpen : m.root = none)
    (ok : status.Finished) (id : String) :
    id ∈ t.finishedStages ↔ ∃ i < m.position + 1, id = stageId i := by
  rw [h.finished isOpen]
  by_cases here : id = stageId m.position
  · rw [if_pos here]
    exact ⟨fun _ => ⟨m.position, Nat.lt_succ_self _, here⟩, fun _ => ok⟩
  · rw [if_neg here]
    constructor
    · intro ⟨i, before, same⟩
      exact ⟨i, by omega, same⟩
    · intro ⟨i, before, same⟩
      have other : i ≠ m.position := fun eq => here (eq ▸ same)
      exact ⟨i, by omega, same⟩

theorem updateState_decided (h : Touched key old m status mark t w) (decided : m.root ≠ none) :
    Shows key old (t.updateState w).2 (m.push mark) := by
  have closed : t.isFinished = true := by
    rw [h.isFinished]
    exact Option.isSome_iff_ne_none.mpr decided
  rw [t.updateState_of_finished w closed]
  exact ⟨h.marks, h.head, h.isFinished, fun _ => h.table, fun isOpen => absurd isOpen decided,
    fun isOpen => absurd isOpen decided⟩

theorem updateState_more (h : Touched key old m status mark t w) (isOpen : m.root = none)
    (ok : status.Finished) (more : m.position + 1 < m.stages) :
    Shows key old (t.updateState w).2 (m.push mark) := by
  have notFail : status ≠ .fail := fun fails => by
    rw [fails] at ok
    exact ok
  obtain ⟨s, member, id⟩ := h.mem_stages more
  have open_stage : s.id ∉ t.finishedStages := id ▸ h.notMem isOpen (Nat.lt_succ_self _)
  rw [t.updateState_of_open w (h.unfinished isOpen) (h.failedStages isOpen notFail) member
    open_stage]
  exact ⟨h.marks, h.head, h.isFinished, fun _ => h.table, fun _ => h.mem_passed isOpen ok,
    fun _ => h.failedStages isOpen notFail⟩

theorem updateState_last (h : Touched key old m status mark t w) (isOpen : m.root = none)
    (ok : status.Finished) (last : m.position + 1 = m.stages) :
    Shows key old (t.updateState w).2 ((m.push mark).settle (.success "success")) := by
  have notFail : status ≠ .fail := fun fails => by
    rw [fails] at ok
    exact ok
  have every : ∀ s ∈ t.stageIterator, s.id ∈ t.finishedStages := fun s member => by
    obtain ⟨i, inside, id⟩ := h.stages member
    exact (h.mem_passed isOpen ok s.id).mpr ⟨i, by omega, id⟩
  have unfinished := h.unfinished isOpen
  rw [t.updateState_of_all w unfinished (h.failedStages isOpen notFail) every]
  have first := t.setCompleted_fst w "success" unfinished
  refine ⟨?_, ?_, ?_, ?_, by simp [Sequential.settle], by simp [Sequential.settle]⟩
  · rw [t.marks_setCompleted w "success" unfinished, h.marks, h.head, Sequential.settle]
    simp
  · rw [first]
    exact h.head
  · rw [first]
    rfl
  · intro left
    have inside : m.position + 1 < m.stages := by simpa [Sequential.settle, Sequential.push] using left
    omega

theorem updateState_fail (h : Touched key old m .fail .fail t w) (isOpen : m.root = none) :
    Shows key old (t.updateState w).2 ((m.push .fail).settle .fail) := by
  have failing : t.failedStages.Nonempty :=
    ⟨stageId m.position, (h.failed isOpen _).mpr ⟨rfl, rfl⟩⟩
  rw [t.updateState_of_failed w (h.unfinished isOpen) failing]
  refine ⟨?_, h.head, rfl, fun _ => h.table, by simp [Sequential.settle],
    by simp [Sequential.settle]⟩
  rw [Task.marks_setFailedAndFreeze, h.marks, h.head, Sequential.settle]
  simp

theorem updateState_run (h : Touched key old m .running (.run none) t w) (isOpen : m.root = none)
    (inside : m.position < m.stages) : Shows key old (t.updateState w).2 m.activate := by
  have noneFailed := h.failedStages isOpen (by simp)
  have passed : ∀ id, id ∈ t.finishedStages ↔ ∃ i < m.position, id = stageId i := fun id => by
    rw [h.finished isOpen]
    by_cases here : id = stageId m.position
    · have before : ¬ ∃ i < m.position, id = stageId i := fun ⟨i, less, same⟩ => by
        have := stageId_injective (here.symm.trans same)
        omega
      simp [here, Status.Finished] at before ⊢
      exact before
    · rw [if_neg here]
  obtain ⟨s, member, id⟩ := h.mem_stages inside
  have open_stage : s.id ∉ t.finishedStages := by
    rw [id, passed]
    intro ⟨i, before, same⟩
    have := stageId_injective same
    omega
  rw [t.updateState_of_open w (h.unfinished isOpen) noneFailed member open_stage,
    Sequential.activate, if_pos inside]
  exact ⟨h.marks, h.head, h.isFinished, fun _ => h.table, fun _ => passed, fun _ => noneFailed⟩

end Touched

theorem verdict (h : Shows key old (t, w) m) (inside : m.position < m.stages)
    (op : Task.StageOp (stageId m.position) status mark act finished failed)
    (ok : status.Finished) :
    Shows key old (t.onStage (stageId m.position) act finished failed w).2 (m.verdict mark) := by
  obtain ⟨t', w', evaluated, touched⟩ := h.touch inside op
  rw [evaluated]
  by_cases isOpen : m.root = none
  · by_cases last : m.position + 1 = m.stages
    · rw [Sequential.verdict_last mark isOpen last]
      exact touched.updateState_last isOpen ok last
    · rw [Sequential.verdict_of_more mark last]
      exact touched.updateState_more isOpen ok (by omega)
  · rw [Sequential.verdict_of_decided mark isOpen]
    exact touched.updateState_decided isOpen

theorem fail (h : Shows key old (t, w) m) (isOpen : m.root = none)
    (inside : m.position < m.stages) (report : ErrorReport) :
    Shows key old (t.failById (stageId m.position) report w).2
      ((m.push .fail).settle .fail) := by
  obtain ⟨t', w', evaluated, touched⟩ := h.touch inside (Task.failById_op _ report)
  rw [Task.failById, evaluated]
  exact touched.updateState_fail isOpen

theorem activate (h : Shows key old (t, w) m) (isOpen : m.root = none)
    (inside : m.position < m.stages) :
    Shows key old (t.runById (stageId m.position) none w).2 m.activate := by
  obtain ⟨t', w', evaluated, touched⟩ := h.touch inside (Task.runById_op _ none)
  have same : t.runById (stageId m.position) none w = t'.updateState w' := evaluated
  rw [same]
  exact touched.updateState_run isOpen inside

theorem setCompleted_decided (h : Shows key old (t, w) m) (decided : m.root ≠ none)
    (msg : String) : t.setCompleted msg w = (t, w) := by
  have closed : t.isFinished = m.root.isSome := h.isFinished
  apply t.setCompleted_of_finished w msg
  rw [closed]
  exact Option.isSome_iff_ne_none.mpr decided

theorem setCompleted_open (h : Shows key old (t, w) m) (isOpen : m.root = none)
    (last : m.position = m.stages) (msg : String) :
    Shows key old (t.setCompleted msg w) (m.settle (.success msg)) := by
  have unfinished : t.isFinished = false := by
    rw [show t.isFinished = m.root.isSome from h.isFinished, isOpen]
    rfl
  have first := t.setCompleted_fst w msg unfinished
  have marks : w.marks = _ := h.marks
  have head : t.renderer.key = key .head := h.head
  refine ⟨?_, ?_, ?_, ?_, by simp [Sequential.settle], by simp [Sequential.settle]⟩
  · rw [t.marks_setCompleted w msg unfinished, marks, head, Sequential.settle]
    simp
  · rw [first]
    exact head
  · rw [first]
    rfl
  · simp [Sequential.settle, last]

theorem skips (msg : String) (left : Nat) (h : Shows key old (t, w) m)
    (bound : m.position + left = m.stages) :
    Shows key old
      (Task.forIds (fun t id w => t.skipById id msg w)
        ((List.range' m.position left).map stageId) t w)
      (exec (fun m _ => m.verdict (.skip msg)) m (List.range' m.position left)) := by
  induction left generalizing t w m with
  | zero => exact h
  | succ left ih =>
    have next := h.verdict (by omega) (Task.skipById_op (stageId m.position) msg) trivial
    have rest := ih next (by
      rw [Sequential.verdict_position, Sequential.verdict_stages]
      omega)
    rw [Sequential.verdict_position] at rest
    rw [List.range'_succ, exec_cons]
    exact rest

end Shows

/-- The sequence stands where the machine stands. -/
structure Follows (key : Part → Nat) (old : List (Nat × Mark)) (s : TaskSequence × Screen)
    (m : Sequential) : Prop where
  allIds : s.1.allIds = (List.range m.stages).map stageId
  current : s.1.currentStage = m.position
  inner : Shows key old (s.1.inner, s.2) m

namespace Follows

variable {key : Part → Nat} {old : List (Nat × Mark)} {s : TaskSequence} {w : Screen}
  {m : Sequential}

theorem getElem?_current (h : Follows key old (s, w) m) :
    s.allIds[s.currentStage]? =
      if m.position < m.stages then some (stageId m.position) else none := by
  have ids : s.allIds = _ := h.allIds
  have current : s.currentStage = _ := h.current
  rw [ids, current, List.getElem?_map]
  by_cases inside : m.position < m.stages
  · rw [List.getElem?_range inside, if_pos inside]
    rfl
  · rw [List.getElem?_eq_none (by simpa using inside), if_neg inside]
    rfl

theorem length (h : Follows key old (s, w) m) : s.allIds.length = m.stages := by
  have ids : s.allIds = _ := h.allIds
  simp [ids]

theorem activateCurrentStage (h : Follows key old (s, w) m) (isOpen : m.root = none) :
    Follows key old (s.activateCurrentStage w) m.activate := by
  have current := h.getElem?_current
  by_cases inside : m.position < m.stages
  · rw [if_pos inside] at current
    have next := h.inner.activate isOpen inside
    simp only [TaskSequence.activateCurrentStage, current]
    rw [Sequential.activate, if_pos inside] at next ⊢
    exact ⟨h.allIds, h.current, next⟩
  · rw [if_neg inside] at current
    simp only [TaskSequence.activateCurrentStage, current]
    rw [Sequential.activate, if_neg inside]
    exact h

theorem advance {inner : Task} {w' : Screen} {mark : Mark} (h : Follows key old (s, w) m)
    (isOpen : m.root = none) (inside : m.position < m.stages)
    (passed : Shows key old (inner, w') (m.verdict mark)) :
    Follows key old ({ s with inner }.advance w') (m.pass mark) := by
  have current : s.currentStage = m.position := h.current
  have length := h.length
  rw [Sequential.pass, if_pos inside]
  by_cases last : m.position + 1 = m.stages
  · rw [Sequential.verdict_last mark isOpen last] at passed ⊢
    have decided : ((m.push mark).settle (.success "success")).root ≠ none := by
      simp [Sequential.settle]
    have exhausted : ¬ s.currentStage + 1 < s.allIds.length := by omega
    have noStage : ¬ ((m.push mark).settle (.success "success")).position <
        ((m.push mark).settle (.success "success")).stages := by
      change ¬ m.position + 1 < m.stages
      omega
    simp only [TaskSequence.advance, if_neg exhausted, passed.setCompleted_decided decided]
    rw [Sequential.activate, if_neg noStage]
    exact ⟨h.allIds, congrArg (· + 1) current, passed⟩
  · rw [Sequential.verdict_of_more mark last] at passed ⊢
    have more : s.currentStage + 1 < s.allIds.length := by omega
    simp only [TaskSequence.advance, if_pos more]
    have moved : Follows key old
        ({ s with inner, currentStage := s.currentStage + 1 }, w') (m.push mark) :=
      ⟨h.allIds, congrArg (· + 1) current, passed⟩
    exact moved.activateCurrentStage isOpen

theorem ok_eq (h : Follows key old (s, w) m) (msg : String) :
    s.ok msg w = if m.position < m.stages then
        { s with inner := (s.inner.okById (stageId m.position) msg w).2.1 }.advance
          (s.inner.okById (stageId m.position) msg w).2.2
      else (s, w) := by
  rw [TaskSequence.ok, h.getElem?_current]
  split_ifs <;> rfl

theorem skip_eq (h : Follows key old (s, w) m) (msg : String) :
    s.skip msg w = if m.position < m.stages then
        { s with inner := (s.inner.skipById (stageId m.position) msg w).2.1 }.advance
          (s.inner.skipById (stageId m.position) msg w).2.2
      else (s, w) := by
  rw [TaskSequence.skip, h.getElem?_current]
  split_ifs <;> rfl

theorem ok (h : Follows key old (s, w) m) (isOpen : m.root = none) (msg : String) :
    Follows key old (s.ok msg w) (m.pass (.success msg)) := by
  rw [h.ok_eq]
  split_ifs with inside
  · exact h.advance isOpen inside (h.inner.verdict inside (Task.okById_op _ msg) trivial)
  · rw [Sequential.pass, if_neg inside]
    exact h

theorem skip (h : Follows key old (s, w) m) (isOpen : m.root = none) (msg : String) :
    Follows key old (s.skip msg w) (m.pass (.skip msg)) := by
  rw [h.skip_eq]
  split_ifs with inside
  · exact h.advance isOpen inside (h.inner.verdict inside (Task.skipById_op _ msg) trivial)
  · rw [Sequential.pass, if_neg inside]
    exact h

theorem skipStages (h : Follows key old (s, w) m) (bound : m.position ≤ m.stages)
    (msg : String) :
    ∃ next, s.skipStages s.currentStage msg w = some next ∧
      next.1.allIds = s.allIds ∧ next.1.currentStage = m.stages ∧
      Shows key old (next.1.inner, next.2)
        (exec (fun m _ => m.verdict (.skip msg)) m
          (List.range' m.position (m.stages - m.position))) := by
  have current : s.currentStage = m.position := h.current
  have length := h.length
  have inBounds : s.currentStage ≤ s.allIds.length := by omega
  have ids : s.allIds = _ := h.allIds
  have rest : s.allIds.drop s.currentStage =
      (List.range' m.position (m.stages - m.position)).map stageId := by
    rw [ids, current, ← List.map_drop, List.range_eq_range', List.drop_range']
    simp
  refine ⟨_, by simp only [TaskSequence.skipStages, TaskSequence.idsFrom, if_pos inBounds]; rfl,
    rfl, length, ?_⟩
  have skipped := h.inner.skips msg (m.stages - m.position) (by omega)
  rw [← rest] at skipped
  exact skipped

theorem fail (h : Follows key old (s, w) m) (isOpen : m.root = none) (report : ErrorReport) :
    ∃ next, s.fail report w = some next ∧ Follows key old next m.fail := by
  have current := h.getElem?_current
  have position : s.currentStage = m.position := h.current
  have length := h.length
  by_cases inside : m.position < m.stages
  · rw [if_pos inside] at current
    rw [Sequential.fail, if_pos inside]
    have failed : Follows key old
        ({ s with
            inner := (s.inner.failById (stageId m.position) report w).2.1
            currentStage := s.currentStage + 1 },
          (s.inner.failById (stageId m.position) report w).2.2)
        ((m.push .fail).settle .fail) :=
      ⟨h.allIds, congrArg (· + 1) position, h.inner.fail isOpen inside report⟩
    by_cases more : s.currentStage + 1 < s.allIds.length
    · obtain ⟨next, skipped, ids, last, shows⟩ := failed.skipStages
        (show m.position + 1 ≤ m.stages by omega) "skipped due to previous error"
      refine ⟨next, by simpa only [TaskSequence.fail, current, if_pos more] using skipped, ?_⟩
      rw [Sequential.exec_skips_of_decided _ _ (by simp [Sequential.settle])
        (show m.position + 1 + (m.stages - (m.position + 1)) = m.stages by omega)] at shows
      refine ⟨ids.trans h.allIds, last, ?_⟩
      simpa [Sequential.settle, Sequential.push] using shows
    · have lastStage : m.position + 1 = m.stages := by omega
      refine ⟨_, by simp only [TaskSequence.fail, current, if_neg more]; rfl, ?_⟩
      rw [Sequential.skips_of_le _ lastStage.ge]
      simpa [Sequential.settle, Sequential.push, lastStage] using failed
  · rw [if_neg inside] at current
    rw [Sequential.fail, if_neg inside]
    exact ⟨(s, w), by simp only [TaskSequence.fail, current], h⟩

theorem finish (h : Follows key old (s, w) m) (isOpen : m.root = none)
    (bound : m.position ≤ m.stages) (msg : String) :
    ∃ next, s.finish msg w = some next ∧ Follows key old next (m.finish msg) := by
  have position : s.currentStage = m.position := h.current
  have length := h.length
  by_cases inside : m.position < m.stages
  · obtain ⟨next, skipped, ids, last, shows⟩ := h.skipStages bound "skipped"
    have some_left : m.stages - m.position = m.stages - m.position - 1 + 1 := by omega
    rw [some_left, Sequential.exec_skips_of_open _ _ isOpen (by omega)] at shows
    have more : s.currentStage < s.allIds.length := by omega
    refine ⟨next, ?_, ids.trans h.allIds, last, ?_⟩
    · simp only [TaskSequence.finish, if_pos more, skipped, Option.bind_eq_bind, Option.bind_some,
        shows.setCompleted_decided (by simp)]
    · simpa [Sequential.finish, inside] using shows
  · have last : m.position = m.stages := by omega
    have exhausted : ¬ s.currentStage < s.allIds.length := by omega
    have shows := h.inner.setCompleted_open isOpen last msg
    have noSkips := Sequential.skips_of_le "skipped" (le_refl m.stages)
    refine ⟨({ s with inner := (s.inner.setCompleted msg w).1 },
      (s.inner.setCompleted msg w).2), ?_, h.allIds, position.trans last, ?_⟩
    · simp only [TaskSequence.finish, if_neg exhausted, Option.bind_eq_bind, Option.bind_some]
    · simpa [Sequential.finish, Sequential.settle, last, noSkips] using shows

theorem step_decided (h : Follows key old (s, w) m) (decided : m.root ≠ none)
    (last : m.position = m.stages) (op : SequenceOp) :
    TaskSequence.step (s, w) op = some (s, w) := by
  have noStage := h.getElem?_current
  rw [if_neg (by omega)] at noStage
  have position : s.currentStage = m.position := h.current
  have exhausted : ¬ s.currentStage < s.allIds.length := by
    have := h.length
    omega
  cases op with
  | ok msg => simp only [TaskSequence.step, TaskSequence.ok, noStage]
  | skip msg => simp only [TaskSequence.step, TaskSequence.skip, noStage]
  | fail report => simp only [TaskSequence.step, TaskSequence.fail, noStage]
  | finish msg =>
    simp only [TaskSequence.step, TaskSequence.finish, if_neg exhausted, Option.bind_eq_bind,
      Option.bind_some, h.inner.setCompleted_decided decided]

theorem position_of_decided {autostart : Bool} (strict : m.Strict autostart)
    (decided : m.root ≠ none) : m.position = m.stages := by
  have bound := strict.bound
  by_cases some_stages : 0 < m.stages
  · exact (strict.exhausted some_stages).mp (Option.isSome_iff_ne_none.mpr decided)
  · omega

theorem step {autostart : Bool} (h : Follows key old (s, w) m) (strict : m.Strict autostart)
    (op : SequenceOp) :
    ∃ next, TaskSequence.step (s, w) op = some next ∧ Follows key old next (m.step op) := by
  unfold Sequential.step
  by_cases isOpen : m.root = none
  · rw [if_neg (by simp [isOpen])]
    cases op with
    | ok msg => exact ⟨_, rfl, h.ok isOpen msg⟩
    | skip msg => exact ⟨_, rfl, h.skip isOpen msg⟩
    | fail report => exact h.fail isOpen report
    | finish msg => exact h.finish isOpen strict.bound msg
  · rw [if_pos (Option.isSome_iff_ne_none.mpr isOpen)]
    exact ⟨_, h.step_decided isOpen (position_of_decided strict isOpen) op, h⟩

end Follows

end KnotOps.Terminal
