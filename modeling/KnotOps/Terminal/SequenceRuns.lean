import KnotOps.Terminal.SequenceRefinement

/-! Whole runs of task sequences, from a builder chain to the last call.
The generated ids are those of the sequential machine, none of the stages runs
at once, and `new` starts the first stage when the sequence is to start. -/

namespace KnotOps.Terminal

open Machine
open TaskSequenceBuilder (stageId)

def SequenceStep.isStage : SequenceStep → Bool
  | stage _ => true
  | group _ => false

namespace TaskSequenceBuilder

structure Registered (b : TaskSequenceBuilder) : Prop where
  ids : b.inner.steps.filterMap BuilderStep.stageId = (List.range b.stageCounter).map stageId
  autostart : b.inner.steps.filterMap BuilderStep.autostartId = []

theorem new_registered (name : String) (style : TaskStyle) (mode : RenderMode) :
    (new (TaskBuilder.new name style mode)).Registered :=
  ⟨rfl, rfl⟩

theorem withStage_registered {b : TaskSequenceBuilder} (h : b.Registered) (name : String) :
    (b.withStage name).Registered where
  ids := by
    simp only [withStage, TaskBuilder.withStage, List.filterMap_append, h.ids, List.range_succ,
      List.map_append]
    rfl
  autostart := by
    simp only [withStage, TaskBuilder.withStage, List.filterMap_append, h.autostart]
    rfl

theorem withGroup_registered {b : TaskSequenceBuilder} (h : b.Registered)
    (header : Option String) : (b.withGroup header).Registered where
  ids := by
    simp only [withGroup, TaskBuilder.withGroup, List.filterMap_append, h.ids]
    simp [List.filterMap_cons, BuilderStep.stageId]
  autostart := by
    simp only [withGroup, TaskBuilder.withGroup, List.filterMap_append, h.autostart]
    rfl

theorem chain_registered {b : TaskSequenceBuilder} (h : b.Registered) (steps : List SequenceStep) :
    (b.chain steps).Registered ∧
      (b.chain steps).stageCounter = b.stageCounter + steps.countP SequenceStep.isStage := by
  induction steps generalizing b with
  | nil => exact ⟨h, rfl⟩
  | cons step steps ih =>
    cases step with
    | stage name =>
      obtain ⟨registered, counter⟩ := ih (withStage_registered h name)
      refine ⟨registered, counter.trans ?_⟩
      rw [List.countP_cons_of_pos rfl]
      change b.stageCounter + 1 + _ = _
      omega
    | group header =>
      obtain ⟨registered, counter⟩ := ih (withGroup_registered h header)
      refine ⟨registered, counter.trans ?_⟩
      rw [List.countP_cons_of_neg (by simp [SequenceStep.isStage])]
      rfl

end TaskSequenceBuilder

theorem stage_keys_sublist (entries : List TaskEntry) :
    ((entries.filterMap TaskEntry.stage?).map (·.renderer.key)).Sublist
      (entries.map (·.renderer.key)) := by
  induction entries with
  | nil => exact List.Sublist.refl _
  | cons entry rest ih =>
    cases entry with
    | stage s => exact ih.cons_cons _
    | extra r => exact ih.cons _

def Task.partKey (t : Task) : Part → Nat
  | .head => t.renderer.key
  | .stage i => ((t.stageIterator.map (·.renderer.key))[i]?).getD 0

namespace TaskBuilder.Fresh

variable {b : TaskBuilder} {w w' : Screen} {t : Task}

theorem partKey_injective (fresh : Fresh b w t w') {p q : Part}
    (pValid : p.Valid t.stageIterator.length) (qValid : q.Valid t.stageIterator.length)
    (same : t.partKey p = t.partKey q) : p = q := by
  have sublist := stage_keys_sublist t.entries
  rw [fresh.keys] at sublist
  have nodup : (t.stageIterator.map (·.renderer.key)).Nodup := sublist.nodup List.nodup_range'
  have later {i : Nat} (inside : i < t.stageIterator.length) :
      t.partKey (.stage i) ≠ t.renderer.key := fun eq => by
    have member : t.renderer.key ∈ t.stageIterator.map (·.renderer.key) := by
      rw [← eq, Task.partKey, List.getElem?_eq_getElem (by simpa using inside)]
      exact List.getElem_mem _
    have bounds := List.mem_range'_1.mp (sublist.subset member)
    rw [fresh.key] at bounds
    omega
  cases p with
  | head =>
    cases q with
    | head => rfl
    | stage j => exact absurd same.symm (later qValid)
  | stage i =>
    cases q with
    | head => exact absurd same (later pValid)
    | stage j =>
      have pInside : i < (t.stageIterator.map (·.renderer.key)).length := by
        rw [List.length_map]
        exact pValid
      have qInside : j < (t.stageIterator.map (·.renderer.key)).length := by
        rw [List.length_map]
        exact qValid
      rw [Task.partKey, Task.partKey, List.getElem?_eq_getElem pInside,
        List.getElem?_eq_getElem qInside] at same
      exact congrArg Part.stage (nodup.getElem_inj_iff.mp same)

theorem table_eq (fresh : Fresh b w t w') {stages : Nat}
    (ids : b.steps.filterMap BuilderStep.stageId = (List.range stages).map stageId) :
    t.stageIterator.length = stages ∧
      t.table = (List.range stages).map fun i => (stageId i, t.partKey (.stage i)) := by
  have listed : t.stageIterator.map (·.id) = (List.range stages).map stageId :=
    fresh.ids.trans ids
  have length : t.stageIterator.length = stages := by
    simpa using congrArg List.length listed
  refine ⟨length, List.ext_getElem (by simp [Task.table, length]) fun i left right => ?_⟩
  have inside : i < t.stageIterator.length := by simpa [Task.table] using left
  have id : t.stageIterator[i].id = stageId i := by
    have entry := congrArg (·[i]?) listed
    simpa [List.getElem?_range (length ▸ inside), inside] using entry
  simp [Task.table, Task.partKey, inside, id]

theorem follows (fresh : Fresh b w t w') {stages : Nat}
    (ids : b.steps.filterMap BuilderStep.stageId = (List.range stages).map stageId) :
    Follows t.partKey w.marks (⟨t, 0, t.stageIterator.map (·.id)⟩, w')
      (Sequential.blank stages) where
  allIds := fresh.ids.trans ids
  current := rfl
  inner :=
    { marks := fresh.marks.trans (List.append_nil _).symm
      head := rfl
      isFinished := fresh.isFinished
      table := fun _ => (fresh.table_eq ids).2
      finished := fun _ id => by simp [fresh.finished, Sequential.blank]
      failed := fun _ => fresh.failed }

end TaskBuilder.Fresh

theorem TaskSequence.new_follows {b : TaskBuilder} {w w' : Screen} {t : Task}
    (fresh : TaskBuilder.Fresh b w t w') {stages : Nat}
    (ids : b.steps.filterMap BuilderStep.stageId = (List.range stages).map stageId)
    (autostart : Bool) :
    Follows t.partKey w.marks (TaskSequence.new t autostart w')
      (Sequential.start stages autostart) := by
  have follows := fresh.follows ids
  cases autostart with
  | false => exact follows
  | true => exact follows.activateCurrentStage rfl

theorem Sequential.exec_empty_root {m : Sequential} (empty : m.stages = 0)
    (ops : List SequenceOp) :
    (exec step m ops).root.isSome ↔ m.root.isSome ∨ ∃ msg, .finish msg ∈ ops := by
  induction ops generalizing m with
  | nil => simp
  | cons op ops ih =>
    have none_left (m : Sequential) (empty : m.stages = 0) : ¬ m.position < m.stages := by omega
    rw [exec_cons]
    by_cases isOpen : m.root = none
    · have go : m.step op = _ := if_neg (by simp [isOpen])
      cases op with
      | ok msg =>
        have same : m.step (.ok msg) = m := go.trans (if_neg (none_left m empty))
        rw [same, ih empty]
        simp
      | skip msg =>
        have same : m.step (.skip msg) = m := go.trans (if_neg (none_left m empty))
        rw [same, ih empty]
        simp
      | fail report =>
        have same : m.step (.fail report) = m := go.trans (if_neg (none_left m empty))
        rw [same, ih empty]
        simp
      | finish msg =>
        rw [go, ih (show (m.finish msg).stages = 0 from empty)]
        simp [finish]
    · have decided : m.root.isSome := Option.isSome_iff_ne_none.mpr isOpen
      have same : m.step op = m := if_pos decided
      rw [same, ih empty]
      simp [decided]

namespace TaskSequenceBuilder

theorem launch_follows {b : TaskSequenceBuilder} (registered : b.Registered)
    (autostart autoIndent : Bool) (w : Screen) :
    ∃ start key, b.launch autostart autoIndent w = some start ∧
      (∀ p q : Part, p.Valid b.stageCounter → q.Valid b.stageCounter → key p = key q → p = q) ∧
      key .head = w.renderers ∧
      Follows key w.marks start (Sequential.start b.stageCounter autostart) := by
  obtain ⟨t, w', fresh, started⟩ := TaskBuilder.start_spec b.inner autoIndent w
  rw [registered.autostart] at started
  have launched : b.launch autostart autoIndent w = some (TaskSequence.new t autostart w') := by
    rw [launch_eq, started]
    rfl
  obtain ⟨length, -⟩ := fresh.table_eq registered.ids
  refine ⟨_, t.partKey, launched, ?_, fresh.key,
    TaskSequence.new_follows fresh registered.ids autostart⟩
  intro p q pValid qValid
  rw [← length] at pValid qValid
  exact fresh.partKey_injective pValid qValid

end TaskSequenceBuilder

theorem Follows.run {key : Part → Nat} {old : List (Nat × Mark)}
    {start : TaskSequence × Screen} {m : Sequential} {autostart : Bool}
    (h : Follows key old start m) (strict : m.Strict autostart) (ops : List SequenceOp) :
    ∃ s, Machine.run TaskSequence.step start ops = some s ∧
      Follows key old s (exec Sequential.step m ops) ∧
      (exec Sequential.step m ops).Strict autostart := by
  induction ops generalizing start m with
  | nil => exact ⟨start, rfl, h, strict⟩
  | cons op ops ih =>
    obtain ⟨next, taken, follows⟩ := h.step strict op
    obtain ⟨s, reached, last⟩ := ih follows (Sequential.step_strict strict op)
    exact ⟨s, run_cons_eq_some.mpr ⟨next, taken, reached⟩, last⟩

/-- A task sequence refines the sequential machine over every chain of builder
calls and every run: no call panics, the records are those of the machine, and
after termination no call has an effect. -/
theorem sequence_refines_sequential (name : String) (style : TaskStyle) (mode : RenderMode)
    (steps : List SequenceStep) (autostart autoIndent : Bool) (w : Screen) :
    let b := (TaskSequenceBuilder.new (TaskBuilder.new name style mode)).chain steps
    let stages := steps.countP SequenceStep.isStage
    ∃ start key, b.launch autostart autoIndent w = some start ∧
      (∀ p q : Part, p.Valid stages → q.Valid stages → key p = key q → p = q) ∧
      ∀ ops, ∃ s, Machine.run TaskSequence.step start ops = some s ∧
        let m := exec Sequential.step (Sequential.start stages autostart) ops
        Follows key w.marks s m ∧ m.Strict autostart ∧
        (stages = 0 → (s.1.inner.isFinished = true ↔ ∃ msg, .finish msg ∈ ops)) ∧
        (s.1.inner.isFinished = true → ∀ op, TaskSequence.step s op = some s) := by
  intro b stages
  obtain ⟨registered, counter⟩ :=
    TaskSequenceBuilder.chain_registered (TaskSequenceBuilder.new_registered name style mode) steps
  have count : b.stageCounter = stages := counter.trans (Nat.zero_add _)
  obtain ⟨start, key, launched, injective, -, follows⟩ :=
    TaskSequenceBuilder.launch_follows registered autostart autoIndent w
  rw [count] at injective follows
  refine ⟨start, key, launched, injective, fun ops => ?_⟩
  obtain ⟨s, reached, last, strict⟩ :=
    follows.run (Sequential.start_strict stages autostart) ops
  refine ⟨s, reached, last, strict, fun empty => ?_, fun finished op => ?_⟩
  · rw [last.inner.isFinished, Sequential.exec_empty_root (by simp [Sequential.start,
      Sequential.activate, Sequential.blank, empty])]
    simp [Sequential.start, Sequential.activate, Sequential.blank, empty]
  · have decided : (exec Sequential.step (Sequential.start stages autostart) ops).root ≠ none := by
      apply Option.isSome_iff_ne_none.mp
      rw [← last.inner.isFinished]
      exact finished
    exact last.step_decided decided (Follows.position_of_decided strict decided) op

end KnotOps.Terminal
