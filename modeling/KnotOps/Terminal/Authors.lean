import KnotOps.Terminal.Engine
import KnotOps.Terminal.Script

/-! Who renders what in plain mode.
An operation on an element renders with the root of the element or with one of its
children, says nothing but the messages that it is given and a few of its own, and
leaves the renderers as they are, except that children can go. -/

namespace KnotOps.Terminal

def Event.messages : Event → List String
  | .run msg | .wait msg => msg.toList
  | .skip msg | .success msg _ => [msg]
  | .title | .fail _ | .errorReport _ | .separator => []

def fixedMessages : List String := ["success", "skipped", "skipped due to previous error"]

def Screen.Adds (authors : List TaskRenderer) (good : String → Prop) (w w' : Screen) : Prop :=
  ∃ added, w'.log = w.log ++ added ∧
    ∀ r ∈ added, r.renderer ∈ authors ∧ ∀ msg ∈ r.event.messages, good msg

namespace Screen.Adds

variable {authors more : List TaskRenderer} {good : String → Prop} {w w' w'' : Screen}

theorem same (log : w'.log = w.log) : w.Adds authors good w' := ⟨[], by simp [log], by simp⟩

theorem one {r : TaskRenderer} (e : Event) (log : w'.log = w.log ++ [⟨r, e⟩])
    (author : r ∈ authors) (given : ∀ msg ∈ e.messages, good msg) : w.Adds authors good w' :=
  ⟨[⟨r, e⟩], log, List.forall_mem_singleton.mpr ⟨author, given⟩⟩

theorem trans (first : w.Adds authors good w') (second : w'.Adds authors good w'') :
    w.Adds authors good w'' := by
  obtain ⟨added, log, all⟩ := first
  obtain ⟨later, log', all'⟩ := second
  exact ⟨added ++ later, by rw [log', log, List.append_assoc],
    List.forall_mem_append.mpr ⟨all, all'⟩⟩

theorem mono (h : w.Adds authors good w') (subset : authors ⊆ more) : w.Adds more good w' := by
  obtain ⟨added, log, all⟩ := h
  exact ⟨added, log, fun r member => ⟨subset (all r member).1, (all r member).2⟩⟩

end Screen.Adds

namespace TaskRenderer

variable {r : TaskRenderer} {authors : List TaskRenderer} {good : String → Prop} (w : Screen)

theorem log_shownDuration (start : Instant) : (r.shownDuration start w).2.log = w.log := by
  cases h : r.strategy <;> simp [shownDuration, formatDuration, Screen.now, h]

@[simp] theorem log_finishSilently : (r.finishSilently w).log = w.log := by
  unfold finishSilently
  split <;> rfl

@[simp] theorem log_clear : (r.clear w).2.2.log = w.log := by
  unfold clear
  split <;> rfl

variable (author : r ∈ authors)
include author

theorem adds_title : w.Adds authors good (r.title w) :=
  .one .title rfl author (by simp [Event.messages])

theorem adds_wait : w.Adds authors good (r.wait none w) :=
  .one (.wait none) rfl author (by simp [Event.messages])

theorem adds_run {msg : Option String} (given : ∀ text ∈ msg, good text) :
    w.Adds authors good (r.run msg w) :=
  .one (.run msg) (by simp [run, Screen.record]) author (by simpa [Event.messages] using given)

theorem adds_skip {msg : String} (given : good msg) : w.Adds authors good (r.skip msg w) :=
  .one (.skip msg) (by simp [skip, Screen.record]) author (by simpa [Event.messages] using given)

theorem adds_success {msg : String} (given : good msg) (start : Instant) :
    w.Adds authors good (r.success msg start w) :=
  .one (.success msg (r.shownDuration start w).1)
    (by simp [success, Screen.record, log_shownDuration]) author
    (by simpa [Event.messages] using given)

theorem adds_fail (start : Instant) : w.Adds authors good (r.fail start w) :=
  .one (.fail (r.shownDuration start w).1)
    (by simp [fail, Screen.record, log_shownDuration]) author (by simp [Event.messages])

theorem adds_failInsert (good : String → Prop) {ciPrefix : String}
    (plain : r.strategy = .plain ciPrefix)
    (error : ErrorReport) (start : Instant) :
    (r.failInsert error start w).1 = r ∧
      w.Adds authors good (r.failInsert error start w).2 := by
  simp only [failInsert, plain, true_and]
  exact (adds_fail w author start).trans
    (.one (.errorReport error) rfl author (by simp [Event.messages]))

end TaskRenderer

/-- The renderers of an element: its root, and the stages and groups under it. -/
structure Renderers where
  root : TaskRenderer
  children : List TaskRenderer

def ciPrefixOf (taskName : String) : String := "[" ++ taskName ++ "]"

namespace Renderers

def all (c : Renderers) : List TaskRenderer := c.root :: c.children

structure InPlain (c : Renderers) : Prop where
  root : c.root.strategy = .plain ""
  children : ∀ r ∈ c.children, r.strategy = .plain (ciPrefixOf c.root.name)

structure Within (c' c : Renderers) : Prop where
  root : c'.root = c.root
  children : c'.children ⊆ c.children

theorem Within.refl (c : Renderers) : c.Within c := ⟨rfl, List.Subset.refl _⟩

theorem Within.trans {c c' c'' : Renderers} (first : c'.Within c) (second : c''.Within c') :
    c''.Within c :=
  ⟨second.root.trans first.root, List.Subset.trans second.children first.children⟩

theorem Within.all {c c' : Renderers} (h : c'.Within c) : c'.all ⊆ c.all :=
  List.cons_subset.mpr ⟨h.root ▸ List.mem_cons_self,
    List.Subset.trans h.children (List.subset_cons_self _ _)⟩

theorem InPlain.within {c c' : Renderers} (h : c.InPlain) (within : c'.Within c) : c'.InPlain := by
  obtain ⟨root, children⟩ := within
  refine ⟨root ▸ h.root, fun r member => ?_⟩
  rw [root]
  exact h.children r (children member)

theorem InPlain.plain {c : Renderers} (h : c.InPlain) {r : TaskRenderer} (member : r ∈ c.all) :
    ∃ ciPrefix, r.strategy = .plain ciPrefix := by
  rcases List.mem_cons.mp member with rfl | child
  · exact ⟨_, h.root⟩
  · exact ⟨_, h.children r child⟩

end Renderers

structure Operates (good : String → Prop) (c : Renderers) (w : Screen) (c' : Renderers)
    (w' : Screen) : Prop where
  within : c'.Within c
  adds : w.Adds c.all good w'

namespace Operates

variable {good : String → Prop} {c c' c'' : Renderers} {w w' w'' : Screen}

theorem refl (c : Renderers) (w : Screen) : Operates good c w c w := ⟨.refl c, .same rfl⟩

theorem trans (first : Operates good c w c' w') (second : Operates good c' w' c'' w'') :
    Operates good c w c'' w'' :=
  ⟨first.within.trans second.within, first.adds.trans (second.adds.mono first.within.all)⟩

end Operates

theorem Stage.log_start (s : Stage) (w : Screen) : (s.start w).2.log = w.log := by
  unfold start
  split <;> rfl

def TaskOp.texts : TaskOp → List String
  | runById _ msg | run msg => msg.toList
  | okById _ msg | skipById _ msg => [msg]
  | failById _ _ => []

def TaskEnd.texts : TaskEnd → List String
  | ok msg | skip msg => [msg]
  | fail _ => []

def SequenceOp.texts : SequenceOp → List String
  | ok msg | skip msg | finish msg => [msg]
  | fail _ => []

theorem log_clearEntries (entries : List TaskEntry) (w : Screen) :
    (clearEntries entries w).2.log = w.log := by
  induction entries generalizing w with
  | nil => rfl
  | cons entry rest ih => simp [clearEntries, ih]

namespace Task

def renderers (t : Task) : Renderers := ⟨t.renderer, t.entries.map (·.renderer)⟩

variable {good : String → Prop} {t : Task} {w : Screen}

theorem renderers_replaceStage {id : String} {s s' : Stage} (found : t.getStage id = some s)
    (same : s'.renderer = s.renderer) :
    (replaceStage id s' t.entries).map (·.renderer) = t.entries.map (·.renderer) := by
  obtain ⟨before, after, split, replaced⟩ := replaceStage_split found
  rw [replaced, split, List.map_append, List.map_append, List.map_cons, List.map_cons]
  rw [show TaskEntry.renderer (.stage s') = TaskEntry.renderer (.stage s) from same]

theorem root_mem : t.renderer ∈ t.renderers.all := List.mem_cons_self

theorem child_mem {entry : TaskEntry} (member : entry ∈ t.entries) :
    entry.renderer ∈ t.renderers.all :=
  List.mem_cons_of_mem _ (List.mem_map_of_mem member)

theorem operates_clearChildren :
    Operates good t.renderers w (t.clearChildren w).1.renderers (t.clearChildren w).2 := by
  refine ⟨⟨rfl, List.nil_subset _⟩, .same ?_⟩
  unfold clearChildren
  cases t.renderer.strategy <;> exact log_clearEntries t.entries w

theorem log_finishChildren : (t.finishChildren w).log = w.log := by
  unfold finishChildren
  generalize t.entries = entries
  induction entries generalizing w with
  | nil => rfl
  | cons entry rest ih => rw [List.foldl_cons, ih, TaskRenderer.log_finishSilently]

theorem operates_setCompleted {msg : String} (given : good msg) :
    Operates good t.renderers w (t.setCompleted msg w).1.renderers (t.setCompleted msg w).2 := by
  unfold setCompleted
  split
  · exact .refl _ _
  · exact Operates.trans ⟨.refl _, TaskRenderer.adds_success w root_mem given t.startTime⟩
      (operates_clearChildren (t := { t with isFinished := true }))

theorem operates_setFailedAndInsert (plain : t.renderers.InPlain) (error : ErrorReport) :
    Operates good t.renderers w (t.setFailedAndInsert error w).1.renderers
      (t.setFailedAndInsert error w).2 := by
  obtain ⟨same, adds⟩ := TaskRenderer.adds_failInsert w (root_mem (t := t)) good
    plain.root error t.startTime
  exact ⟨⟨same, List.Subset.refl _⟩, adds⟩

theorem operates_setFailedAndFreeze :
    Operates good t.renderers w (t.setFailedAndFreeze w).1.renderers
      (t.setFailedAndFreeze w).2 :=
  ⟨.refl _, (TaskRenderer.adds_fail w root_mem t.startTime).trans (.same log_finishChildren)⟩

theorem operates_setFailedAndClear (plain : t.renderers.InPlain) (error : ErrorReport) :
    Operates good t.renderers w (t.setFailedAndClear error w).1.renderers
      (t.setFailedAndClear error w).2 :=
  (operates_setFailedAndInsert plain error).trans operates_clearChildren

structure Acts (good : String → Prop) (act : Stage → Screen → Stage × Screen) (s : Stage) :
    Prop where
  renderer : ∀ w, (act s w).1.renderer = s.renderer
  adds : ∀ w, Screen.Adds [s.renderer] good w (act s w).2

variable (fixed : ∀ msg ∈ fixedMessages, good msg)
include fixed

theorem operates_updateState :
    Operates good t.renderers w (t.updateState w).2.1.renderers (t.updateState w).2.2 := by
  unfold updateState
  split_ifs
  · exact .refl _ _
  · exact operates_setFailedAndFreeze
  · exact operates_setCompleted (fixed _ (by simp [fixedMessages]))
  · exact .refl _ _

theorem operates_onStage (id : String) {act : Stage → Screen → Stage × Screen}
    {finished failed : Finset String → Finset String}
    (acts : ∀ s, .stage s ∈ t.entries → Acts good act s) :
    Operates good t.renderers w (t.onStage id act finished failed w).2.1.renderers
      (t.onStage id act finished failed w).2.2 := by
  unfold onStage
  split
  · exact .refl _ _
  · rename_i s found
    have member : TaskEntry.stage s ∈ t.entries := by
      obtain ⟨before, after, split, -⟩ := replaceStage_split found
      rw [split]
      simp
    obtain ⟨renderer, adds⟩ := acts s member
    have same := renderers_replaceStage found (renderer w)
    have acted : Operates good t.renderers w
        { t with
          entries := replaceStage id (act s w).1 t.entries
          finishedStages := finished t.finishedStages
          failedStages := failed t.failedStages }.renderers (act s w).2 :=
      ⟨⟨rfl, fun r old => (congrArg (r ∈ ·) same).mp old⟩, (adds w).mono
        (List.cons_subset.mpr ⟨child_mem member, List.nil_subset _⟩)⟩
    exact acted.trans (operates_updateState fixed)

theorem operates_runById (id : String) {msg : Option String} (given : ∀ text ∈ msg, good text) :
    Operates good t.renderers w (t.runById id msg w).2.1.renderers (t.runById id msg w).2.2 :=
  operates_onStage fixed id fun _ _ =>
    ⟨fun _ => rfl, fun w => TaskRenderer.adds_run w.now.2 (List.mem_singleton_self _) given⟩

theorem operates_okById (id : String) {msg : String} (given : good msg) :
    Operates good t.renderers w (t.okById id msg w).2.1.renderers (t.okById id msg w).2.2 :=
  operates_onStage fixed id fun s _ => ⟨fun _ => rfl, fun w =>
    (Screen.Adds.same (s.log_start w)).trans
      (TaskRenderer.adds_success _ (List.mem_singleton_self _) given _)⟩

theorem operates_skipById (id : String) {msg : String} (given : good msg) :
    Operates good t.renderers w (t.skipById id msg w).2.1.renderers (t.skipById id msg w).2.2 :=
  operates_onStage fixed id fun _ _ =>
    ⟨fun _ => rfl, fun w => TaskRenderer.adds_skip w (List.mem_singleton_self _) given⟩

theorem operates_failById (plain : t.renderers.InPlain) (id : String) (report : ErrorReport) :
    Operates good t.renderers w (t.failById id report w).2.1.renderers
      (t.failById id report w).2.2 := by
  refine operates_onStage fixed id fun s member => ?_
  obtain ⟨ciPrefix, strategy⟩ := plain.plain (child_mem member)
  have failed (w : Screen) := TaskRenderer.adds_failInsert (s.start w).2
    (List.mem_singleton_self s.renderer) good strategy report (s.start w).1
  exact ⟨fun w => (failed w).1, fun w => (Screen.Adds.same (s.log_start w)).trans (failed w).2⟩

omit fixed in
theorem operates_forIds {op : Task → String → Screen → Bool × Task × Screen}
    (operates : ∀ t id w, t.renderers.InPlain →
      Operates good t.renderers w (op t id w).2.1.renderers (op t id w).2.2)
    (plain : t.renderers.InPlain) (ids : List String) :
    Operates good t.renderers w (forIds op ids t w).1.renderers (forIds op ids t w).2 := by
  induction ids generalizing t w with
  | nil => exact .refl _ _
  | cons id ids ih =>
    have first := operates t id w plain
    exact first.trans (ih (plain.within first.within))

theorem operates_runs (plain : t.renderers.InPlain) {msg : Option String}
    (given : ∀ text ∈ msg, good text) (ids : List String) :
    Operates good t.renderers w (forIds (fun t id w => t.runById id msg w) ids t w).1.renderers
      (forIds (fun t id w => t.runById id msg w) ids t w).2 :=
  operates_forIds (fun _ id _ _ => operates_runById fixed id given) plain ids

theorem operates_step (plain : t.renderers.InPlain) {op : TaskOp}
    (given : ∀ text ∈ op.texts, good text) :
    Operates good t.renderers w (step (t, w) op).1.renderers (step (t, w) op).2 := by
  cases op with
  | runById id msg => exact operates_runById fixed id (by simpa [TaskOp.texts] using given)
  | okById id msg => exact operates_okById fixed id (by simpa [TaskOp.texts] using given)
  | failById id report => exact operates_failById fixed plain id report
  | skipById id msg => exact operates_skipById fixed id (by simpa [TaskOp.texts] using given)
  | run msg =>
    simp only [step, performRun]
    split
    · exact .refl _ _
    · exact operates_runs fixed plain (by simpa [TaskOp.texts] using given) _

theorem operates_consume (plain : t.renderers.InPlain) {e : TaskEnd}
    (given : ∀ text ∈ e.texts, good text) :
    Operates good t.renderers w (consume (t, w) e).1.renderers (consume (t, w) e).2 := by
  cases e with
  | ok msg =>
    have given : good msg := by simpa [TaskEnd.texts] using given
    simp only [consume, performOk]
    split_ifs
    · exact .refl _ _
    · exact operates_setCompleted given
    · exact operates_forIds (fun t id w _ => operates_okById fixed id given) plain _
  | fail error =>
    simp only [consume, performFail]
    split
    · exact .refl _ _
    · have failed : Operates good t.renderers w _ _ := operates_forIds (fun t id w plain =>
        operates_failById fixed plain id error) plain t.collectStageIds
      exact failed.trans (operates_setFailedAndClear (plain.within failed.within) error)
  | skip msg =>
    simp only [consume, performSkip]
    split
    · exact .refl _ _
    · exact operates_forIds (fun t id w _ =>
        operates_skipById fixed id (by simpa [TaskEnd.texts] using given)) plain _

end Task

namespace TaskSequence

variable {good : String → Prop} {s : TaskSequence} {w : Screen}

abbrev OperatesInner (good : String → Prop) (s : TaskSequence) (w : Screen)
    (next : TaskSequence × Screen) : Prop :=
  Operates good s.inner.renderers w next.1.inner.renderers next.2

variable (fixed : ∀ msg ∈ fixedMessages, good msg)
include fixed

theorem operates_activateCurrentStage : OperatesInner good s w (s.activateCurrentStage w) := by
  unfold activateCurrentStage
  split
  · exact Task.operates_runById fixed _ (by simp)
  · exact .refl _ _

theorem operates_advance : OperatesInner good s w (s.advance w) := by
  unfold advance
  dsimp only
  split
  · exact operates_activateCurrentStage fixed (s := { s with currentStage := s.currentStage + 1 })
  · exact Task.operates_setCompleted (fixed _ (by simp [fixedMessages]))

theorem operates_ok {msg : String} (given : good msg) : OperatesInner good s w (s.ok msg w) := by
  unfold ok
  split
  · rename_i id _
    exact (Task.operates_okById fixed id given).trans
      (operates_advance fixed (s := { s with inner := (s.inner.okById id msg w).2.1 }))
  · exact .refl _ _

theorem operates_skip {msg : String} (given : good msg) :
    OperatesInner good s w (s.skip msg w) := by
  unfold skip
  split
  · rename_i id _
    exact (Task.operates_skipById fixed id given).trans
      (operates_advance fixed (s := { s with inner := (s.inner.skipById id msg w).2.1 }))
  · exact .refl _ _

theorem operates_skipStages (plain : s.inner.renderers.InPlain) {startFrom : Nat} {msg : String}
    (given : good msg) {next : TaskSequence × Screen}
    (skipped : s.skipStages startFrom msg w = some next) : OperatesInner good s w next := by
  unfold skipStages at skipped
  obtain ⟨ids, -, eq⟩ := Option.bind_eq_some_iff.mp skipped
  rw [← Option.some.inj eq]
  exact Task.operates_forIds (fun _ id _ _ => Task.operates_skipById fixed id given) plain ids

theorem operates_fail (plain : s.inner.renderers.InPlain) {report : ErrorReport}
    {next : TaskSequence × Screen} (failed : s.fail report w = some next) :
    OperatesInner good s w next := by
  unfold fail at failed
  split at failed
  · rename_i id _
    have first := Task.operates_failById (w := w) fixed plain id report
    dsimp only at failed
    split_ifs at failed
    · exact first.trans (operates_skipStages fixed (plain.within first.within)
        (fixed _ (by simp [fixedMessages])) failed)
    · rw [← Option.some.inj failed]
      exact first
  · rw [← Option.some.inj failed]
    exact .refl _ _

theorem operates_finish (plain : s.inner.renderers.InPlain) {msg : String} (given : good msg)
    {next : TaskSequence × Screen} (finished : s.finish msg w = some next) :
    OperatesInner good s w next := by
  unfold finish at finished
  dsimp only at finished
  split_ifs at finished
  · obtain ⟨mid, skipped, eq⟩ := Option.bind_eq_some_iff.mp finished
    rw [← Option.some.inj eq]
    exact (operates_skipStages fixed plain (fixed _ (by simp [fixedMessages])) skipped).trans
      (Task.operates_setCompleted given)
  · rw [← Option.some.inj finished]
    exact Task.operates_setCompleted given

theorem operates_step (plain : s.inner.renderers.InPlain) {op : SequenceOp}
    (given : ∀ text ∈ op.texts, good text) {next : TaskSequence × Screen}
    (taken : TaskSequence.step (s, w) op = some next) : OperatesInner good s w next := by
  cases op with
  | ok msg =>
    exact Option.some.inj taken ▸ operates_ok fixed (by simpa [SequenceOp.texts] using given)
  | skip msg =>
    exact Option.some.inj taken ▸ operates_skip fixed (by simpa [SequenceOp.texts] using given)
  | fail report => exact operates_fail fixed plain taken
  | finish msg =>
    exact operates_finish fixed plain (by simpa [SequenceOp.texts] using given) taken

end TaskSequence

namespace Step

variable {good : String → Prop} {s : Step} {w : Screen}

def renderers (s : Step) : Renderers := ⟨s.renderer, []⟩

theorem log_time : (s.time w).2.log = w.log := by
  unfold time
  split <;> rfl

theorem operates_performRun {status : Option String} (given : ∀ text ∈ status, good text) :
    Operates good s.renderers w (s.performRun status w).1.renderers (s.performRun status w).2 :=
  ⟨.refl _, (TaskRenderer.adds_run w List.mem_cons_self given).trans (.same rfl)⟩

theorem operates_performOk {status : String} (given : good status) :
    Operates good s.renderers w s.renderers (s.performOk status w) :=
  ⟨.refl _, (Screen.Adds.same log_time).trans
    (TaskRenderer.adds_success _ List.mem_cons_self given _)⟩

theorem operates_performFail (plain : s.renderers.InPlain) (error : ErrorReport) :
    Operates good s.renderers w (s.performFail error w).1.renderers (s.performFail error w).2 := by
  obtain ⟨same, adds⟩ := TaskRenderer.adds_failInsert (s.time w).2
    (List.mem_cons_self (l := [])) good plain.root error (s.time w).1
  exact ⟨⟨same, List.Subset.refl _⟩, (Screen.Adds.same log_time).trans adds⟩

theorem operates_performSkip {status : String} (given : good status) :
    Operates good s.renderers w s.renderers (s.performSkip status w) :=
  ⟨.refl _, TaskRenderer.adds_skip w List.mem_cons_self given⟩

end Step

structure Task.Open (t : Task) : Prop where
  failed : t.failedStages = ∅
  unfinished : t.isFinished = false

namespace Task

theorem Open.runById {t : Task} (h : t.Open) (id : String) (msg : Option String) (w : Screen) :
    (t.runById id msg w).2.1.Open ∧ (t.runById id msg w).2.1.renderers = t.renderers := by
  unfold Task.runById onStage
  split
  · exact ⟨h, rfl⟩
  · rename_i s found
    obtain ⟨before, after, -, replaced⟩ := replaceStage_split found
    have stays := updateState_of_open
      { t with
        entries := replaceStage id { s with startTime := some w.now.1 } t.entries
        finishedStages := t.finishedStages.erase id
        failedStages := t.failedStages.erase id }
      (s.run msg w.now.2) h.unfinished (by simp [h.failed])
      (s := { s with startTime := some w.now.1 })
      (by simp [stageIterator, replaced, TaskEntry.stage?])
      (by simp [(t.getStage_eq_some found).1])
    dsimp only at stays ⊢
    rw [stays]
    exact ⟨⟨by simp [h.failed], h.unfinished⟩,
      congrArg (Renderers.mk t.renderer) (renderers_replaceStage found rfl)⟩

theorem Open.runs {t : Task} (h : t.Open) (ids : List String) (w : Screen) :
    (forIds (fun t id w => t.runById id none w) ids t w).1.Open ∧
      (forIds (fun t id w => t.runById id none w) ids t w).1.renderers = t.renderers := by
  induction ids generalizing t w with
  | nil => exact ⟨h, rfl⟩
  | cons id ids ih =>
    obtain ⟨first, same⟩ := h.runById id none w
    obtain ⟨opened, rest⟩ := ih first (t.runById id none w).2.2
    exact ⟨opened, rest.trans same⟩

end Task

namespace TaskBuilder

variable {b : TaskBuilder}

structure Gives (b : TaskBuilder) (c : Renderers) : Prop where
  plain : c.InPlain
  name : c.root.name = b.name
  style : ∀ r ∈ c.all, r.style = b.style
  names : ∀ r ∈ c.children, ∃ step ∈ b.steps, r.name = step.childName

theorem gives_new {head : TaskRenderer} {entries : List TaskEntry} (name : head.name = b.name)
    (style : head.style = b.style) (plain : head.strategy = .plain "") (mode : b.mode = .plain)
    (entered : List.Forall₂ (b.Entered false) b.steps entries) (w : Screen) :
    b.Gives (Task.new head entries w).1.renderers := by
  have child : ∀ r ∈ entries.map (·.renderer), ∃ step ∈ b.steps, b.Child step.childName r := by
    intro r member
    obtain ⟨entry, inEntries, rfl⟩ := List.mem_map.mp member
    exact child_of_entered entered inEntries
  refine ⟨⟨plain, fun r member => ?_⟩, name, fun r member => ?_, fun r member => ?_⟩
  · obtain ⟨_, -, child⟩ := child r member
    rw [child.plain mode, ← name]
    rfl
  · rcases List.mem_cons.mp member with rfl | inChildren
    · exact style
    · obtain ⟨_, -, child⟩ := child r inChildren
      exact child.style
  · obtain ⟨step, inSteps, child⟩ := child r member
    exact ⟨step, inSteps, child.name⟩

theorem start_plain (mode : b.mode = .plain) {good : String → Prop}
    (fixed : ∀ msg ∈ fixedMessages, good msg) {autoIndent : Bool} {w w' : Screen} {t : Task}
    (started : b.start autoIndent w = some (t, w')) :
    t.Open ∧ b.Gives t.renderers ∧ w.Adds t.renderers.all good w' := by
  obtain ⟨name, style, -, log, plain⟩ := createHeadRenderer_head b w
  simp only [start] at started
  generalize b.createHeadRenderer w = created at *
  obtain ⟨head, point, titled⟩ := created
  obtain ⟨s, built, ran⟩ := Option.bind_eq_some_iff.mp started
  obtain ⟨children, spacers, scripted⟩ := build_built built
  obtain rfl : spacers = [] := List.length_eq_zero_iff.mp (by simp [scripted.count, mode])
  obtain rfl : s.entries = children := by simpa using scripted.split
  have gives := gives_new name style (plain mode) mode scripted.entered
    (b.placeAnchor s.insertionPoint s.screen)
  have opened : (Task.new head s.entries (b.placeAnchor s.insertionPoint s.screen)).1.Open :=
    ⟨rfl, rfl⟩
  have silent : ∀ text ∈ (none : Option String), good text := by simp
  have runs := Task.operates_runs (w := (Task.new head s.entries
    (b.placeAnchor s.insertionPoint s.screen)).2) fixed gives.plain silent s.autostart
  obtain ⟨stays, same⟩ := opened.runs s.autostart
    (Task.new head s.entries (b.placeAnchor s.insertionPoint s.screen)).2
  rw [Option.some.inj ran] at runs stays same
  rw [same]
  have root : head ∈ Renderers.all ⟨head, s.entries.map (·.renderer)⟩ := List.mem_cons_self
  have begun : Screen.Adds (Renderers.all ⟨head, s.entries.map (·.renderer)⟩) good w
      (head.title titled) :=
    (Screen.Adds.same log).trans (TaskRenderer.adds_title titled root)
  have queued : Screen.Adds (Renderers.all ⟨head, s.entries.map (·.renderer)⟩) good
      (head.title titled) s.screen := by
    refine ⟨_, scripted.log, fun r member => ?_⟩
    obtain ⟨step, entry, inEntries, rfl⟩ := mem_records member
    refine ⟨List.mem_cons_of_mem _ (List.mem_map_of_mem inEntries), ?_⟩
    cases step <;> simp [BuilderStep.event, Event.messages]
  have placed : Screen.Adds (Renderers.all ⟨head, s.entries.map (·.renderer)⟩) good s.screen
      (Task.new head s.entries (b.placeAnchor s.insertionPoint s.screen)).2 :=
    .same (log_placeAnchor b s.insertionPoint s.screen)
  exact ⟨stays, gives, ((begun.trans queued).trans placed).trans runs.adds⟩

end TaskBuilder

namespace TaskSequence

theorem new_open {t : Task} (h : t.Open) {good : String → Prop}
    (fixed : ∀ msg ∈ fixedMessages, good msg) (autostart : Bool) (w : Screen) :
    (TaskSequence.new t autostart w).1.inner.renderers = t.renderers ∧
      w.Adds t.renderers.all good (TaskSequence.new t autostart w).2 := by
  cases autostart with
  | false => exact ⟨rfl, .same rfl⟩
  | true =>
    refine ⟨?_, (operates_activateCurrentStage fixed (s := ⟨t, 0, _⟩)).adds⟩
    change (activateCurrentStage ⟨t, 0, _⟩ w).1.inner.renderers = _
    unfold activateCurrentStage
    split
    · exact (h.runById _ none w).2
    · rfl

end TaskSequence

def SequenceStep.childName : SequenceStep → String
  | stage name => name
  | group header => header.getD ""

theorem TaskSequenceBuilder.chain_inner (b : TaskSequenceBuilder) (steps : List SequenceStep) :
    (b.chain steps).inner.name = b.inner.name ∧ (b.chain steps).inner.style = b.inner.style ∧
      (b.chain steps).inner.steps.map (·.childName) =
        b.inner.steps.map (·.childName) ++ steps.map (·.childName) := by
  induction steps generalizing b with
  | nil => simp [chain]
  | cons step steps ih =>
    cases step with
    | stage name =>
      obtain ⟨name', style, all⟩ := ih (b.withStage name)
      refine ⟨name', style, all.trans ?_⟩
      simp [withStage, TaskBuilder.withStage, BuilderStep.childName, SequenceStep.childName]
    | group header =>
      obtain ⟨name, style, all⟩ := ih (b.withGroup header)
      refine ⟨name, style, all.trans ?_⟩
      simp [withGroup, TaskBuilder.withGroup, BuilderStep.childName, SequenceStep.childName]

theorem TaskEngine.step_plain {e : TaskEngine} (mode : e.mode = .plain) {good : String → Prop}
    (name : String) (autoRun : Bool) (w : Screen) :
    (e.step name autoRun w).1.renderers.InPlain ∧
      (e.step name autoRun w).1.renderer.name = name ∧
      (e.step name autoRun w).1.renderer.style = e.style ∧
      w.Adds (e.step name autoRun w).1.renderers.all good (e.step name autoRun w).2 := by
  simp only [step, mode]
  cases autoRun with
  | false =>
    exact ⟨⟨rfl, nofun⟩, rfl, rfl, (Screen.Adds.same rfl).trans
      (TaskRenderer.adds_wait _ List.mem_cons_self)⟩
  | true =>
    have silent : ∀ text ∈ (none : Option String), good text := by simp
    exact ⟨⟨rfl, nofun⟩, rfl, rfl, (Screen.Adds.same rfl).trans
      ((TaskRenderer.adds_wait _ List.mem_cons_self).trans
        (Step.operates_performRun silent).adds)⟩

end KnotOps.Terminal
