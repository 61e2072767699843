import KnotOps.Lockstep
import KnotOps.Terminal.Drawn
import KnotOps.Terminal.PlainLog

/-! Sessions in the two modes.
The tale of a screen is what its renderers have been told to render: names,
indentations and events, but not durations, looks, bars or the objects behind
them.  One program run in interactive and in plain mode, with any styles and any
clocks, leaves tasks that are alike and one and the same tale, and where a bar
refuses a style and stops the program, a beginning of it. -/

namespace KnotOps.Terminal

open Machine

def Event.untimed : Event → Event
  | .success msg _ => .success msg 0
  | .fail _ => .fail 0
  | .title => .title
  | .run msg => .run msg
  | .wait msg => .wait msg
  | .skip msg => .skip msg
  | .errorReport error => .errorReport error
  | .separator => .separator

structure Face where
  name : String
  indentSpaces : Nat
deriving DecidableEq, Repr

structure Told where
  face : Face
  event : Event
deriving DecidableEq, Repr

def TaskRenderer.face (r : TaskRenderer) : Face := ⟨r.name, r.indentSpaces⟩

def TaskRenderer.tells (r : TaskRenderer) (event : Event) : Told :=
  ⟨r.face, event.untimed⟩

def Record.told (record : Record) : Told := record.renderer.tells record.event

def Screen.tale (w : Screen) : List Told := w.log.map Record.told

theorem Screen.tale_record (w : Screen) (r : TaskRenderer) (event : Event) :
    (w.record r event).tale = w.tale ++ [r.tells event] := by
  simp [tale, record, Record.told]

theorem Screen.tale_of_log {w w' : Screen} (same : w'.log = w.log) : w'.tale = w.tale := by
  rw [tale, same, tale]

@[simp] theorem Screen.tale_turn (w : Screen) (r : TaskRenderer) (running : Bool) :
    (w.turn r running).tale = w.tale :=
  Screen.tale_of_log (w.log_turn r running)

namespace TaskRenderer

variable (r : TaskRenderer) (w : Screen)

@[simp] theorem tale_onBar (call : MultiProgress → LayoutNode → MultiProgress) :
    (r.onBar call w).tale = w.tale :=
  Screen.tale_of_log (r.log_onBar call w)

@[simp] theorem tale_shownDuration (start : Instant) :
    (r.shownDuration start w).2.tale = w.tale :=
  Screen.tale_of_log (r.log_shownDuration w start)

theorem tale_title : (r.title w).tale = w.tale ++ [r.tells .title] :=
  w.tale_record r .title

theorem tale_wait (msg : Option String) : (r.wait msg w).tale = w.tale ++ [r.tells (.wait msg)] :=
  w.tale_record r (.wait msg)

theorem tale_run (msg : Option String) : (r.run msg w).tale = w.tale ++ [r.tells (.run msg)] := by
  rw [run, tale_onBar, Screen.tale_turn, Screen.tale_record]

theorem tale_skip (msg : String) : (r.skip msg w).tale = w.tale ++ [r.tells (.skip msg)] := by
  rw [skip, tale_onBar, Screen.tale_turn, Screen.tale_record]

theorem tale_success (msg : String) (start : Instant) :
    (r.success msg start w).tale = w.tale ++ [r.tells (.success msg 0)] := by
  simp only [success, tale_onBar, Screen.tale_turn, Screen.tale_record, tale_shownDuration]
  rfl

theorem tale_fail (start : Instant) : (r.fail start w).tale = w.tale ++ [r.tells (.fail 0)] := by
  simp only [fail, tale_onBar, Screen.tale_turn, Screen.tale_record, tale_shownDuration]
  rfl

theorem tale_failInsert (error : ErrorReport) (start : Instant) :
    (r.failInsert error start w).2.tale =
      w.tale ++ [r.tells (.fail 0), r.tells (.errorReport error)] := by
  rw [List.append_cons w.tale, ← tale_fail r w start]
  cases bar : r.strategy with
  | plain ciPrefix => simp only [failInsert, bar, Screen.tale_record]
  | interactive node inserted =>
    simp only [failInsert, bar]
    exact Screen.tale_record _ r (.errorReport error)

@[simp] theorem face_failInsert (error : ErrorReport) (start : Instant) :
    (r.failInsert error start w).1.face = r.face := by
  cases bar : r.strategy <;> simp [failInsert, bar, face]

end TaskRenderer

structure Agree {α β : Type} (Alike : α → β → Prop) (x : α × Screen) (y : β × Screen) : Prop where
  alike : Alike x.1 y.1
  tale : x.2.tale = y.2.tale

def Stage.role (s : Stage) : String × Face := (s.id, s.renderer.face)

def Task.roles (t : Task) : List (String × Face) := t.stageIterator.map Stage.role

structure Task.Alike (t t' : Task) : Prop where
  root : t.renderer.face = t'.renderer.face
  roles : t.roles = t'.roles
  finishedStages : t.finishedStages = t'.finishedStages
  failedStages : t.failedStages = t'.failedStages
  isFinished : t.isFinished = t'.isFinished

structure Stage.Tells (act : Stage → Screen → Stage × Screen) (told : Face → List Told) :
    Prop where
  role : ∀ s w, (act s w).1.role = s.role
  tale : ∀ s w, (act s w).2.tale = w.tale ++ told s.renderer.face

@[simp] theorem Stage.tale_start (s : Stage) (w : Screen) : (s.start w).2.tale = w.tale :=
  Screen.tale_of_log (s.log_start w)

namespace Task

variable {t t' : Task} {w w' : Screen}

theorem collectStageIds_roles (t : Task) : t.collectStageIds = t.roles.map Prod.fst := by
  rw [collectStageIds, roles, List.map_map]
  rfl

theorem Alike.ids (h : t.Alike t') : t.collectStageIds = t'.collectStageIds := by
  rw [collectStageIds_roles, collectStageIds_roles, h.roles]

theorem Alike.getStage (h : t.Alike t') (id : String) :
    Option.Rel (fun s s' => s.role = s'.role) (t.getStage id) (t'.getStage id) := by
  have found (t : Task) :
      (t.getStage id).map Stage.role = t.roles.find? fun role => role.1 = id := by
    rw [Task.getStage, Task.roles, List.find?_map]
    rfl
  have same := (found t).trans ((congrArg _ h.roles).trans (found t').symm)
  cases mine : t.getStage id <;> cases theirs : t'.getStage id <;> rw [mine, theirs] at same
  · exact .none
  · cases same
  · cases same
  · exact .some (Option.some.inj same)

theorem roles_replaceStage {id : String} {old new : Stage} (found : t.getStage id = some old)
    (role : new.role = old.role) :
    { t with entries := replaceStage id new t.entries }.roles = t.roles := by
  obtain ⟨before, after, split, replaced⟩ := replaceStage_split found
  have swapped := replaced new
  simp only [roles, stageIterator, swapped]
  simp [split, TaskEntry.stage?, role]

theorem tale_clearChildren (t : Task) (w : Screen) : (t.clearChildren w).2.tale = w.tale := by
  refine Screen.tale_of_log ?_
  unfold clearChildren
  cases t.renderer.strategy <;> exact log_clearEntries t.entries w

end Task

namespace Agree

variable {t t' : Task} {w w' : Screen}

theorem clearChildren (h : Agree Task.Alike (t, w) (t', w')) :
    Agree Task.Alike (t.clearChildren w) (t'.clearChildren w') := by
  refine ⟨{ h.alike with roles := rfl }, ?_⟩
  rw [Task.tale_clearChildren, Task.tale_clearChildren]
  exact h.tale

theorem setCompleted (h : Agree Task.Alike (t, w) (t', w')) (msg : String) :
    Agree Task.Alike (t.setCompleted msg w) (t'.setCompleted msg w') := by
  unfold Task.setCompleted
  rw [h.alike.isFinished]
  split
  · exact h
  · refine clearChildren ⟨{ h.alike with isFinished := rfl }, ?_⟩
    simp only [TaskRenderer.tale_success, TaskRenderer.tells, h.alike.root, h.tale]

theorem setFailedAndInsert (h : Agree Task.Alike (t, w) (t', w')) (error : ErrorReport) :
    Agree Task.Alike (t.setFailedAndInsert error w) (t'.setFailedAndInsert error w') := by
  refine ⟨{ h.alike with root := ?_, isFinished := rfl }, ?_⟩
  · simp only [Task.setFailedAndInsert, TaskRenderer.face_failInsert, h.alike.root]
  · simp only [Task.setFailedAndInsert, TaskRenderer.tale_failInsert, TaskRenderer.tells,
      h.alike.root, h.tale]

theorem setFailedAndFreeze (h : Agree Task.Alike (t, w) (t', w')) :
    Agree Task.Alike (t.setFailedAndFreeze w) (t'.setFailedAndFreeze w') := by
  refine ⟨{ h.alike with isFinished := rfl }, ?_⟩
  have frozen (t : Task) (w : Screen) :
      (t.setFailedAndFreeze w).2.tale = (t.renderer.fail t.startTime w).tale :=
    Screen.tale_of_log (Task.log_finishChildren (t := { t with isFinished := true }))
  rw [frozen, frozen, TaskRenderer.tale_fail, TaskRenderer.tale_fail]
  simp only [TaskRenderer.tells, h.alike.root, h.tale]

theorem setFailedAndClear (h : Agree Task.Alike (t, w) (t', w')) (error : ErrorReport) :
    Agree Task.Alike (t.setFailedAndClear error w) (t'.setFailedAndClear error w') :=
  clearChildren (h.setFailedAndInsert error)

abbrev Answers (x y : Bool × Task × Screen) : Prop :=
  x.1 = y.1 ∧ Agree Task.Alike x.2 y.2

theorem updateState (h : Agree Task.Alike (t, w) (t', w')) :
    Answers (t.updateState w) (t'.updateState w') := by
  have all (t : Task) : t.stageIterator.all (·.id ∈ t.finishedStages) =
      t.roles.all (·.1 ∈ t.finishedStages) := by
    rw [Task.roles, List.all_map]
    rfl
  unfold Task.updateState
  rw [all, all, h.alike.isFinished, h.alike.failedStages, h.alike.finishedStages, h.alike.roles]
  split_ifs
  · exact ⟨rfl, h⟩
  · exact ⟨rfl, h.setFailedAndFreeze⟩
  · exact ⟨rfl, h.setCompleted "success"⟩
  · exact ⟨rfl, h⟩

theorem onStage (h : Agree Task.Alike (t, w) (t', w')) (id : String)
    {act : Stage → Screen → Stage × Screen} (told : Face → List Told) (tells : Stage.Tells act told)
    (finished failed : Finset String → Finset String) :
    Answers (t.onStage id act finished failed w) (t'.onStage id act finished failed w') := by
  have found := h.alike.getStage id
  unfold Task.onStage
  cases mine : t.getStage id <;> cases theirs : t'.getStage id <;> rw [mine, theirs] at found
  · exact ⟨rfl, h⟩
  · cases found
  · cases found
  · rename_i s s'
    obtain role : s.role = s'.role := by cases found; assumption
    refine updateState ⟨{ h.alike with
      roles := ?_, finishedStages := ?_, failedStages := ?_ }, ?_⟩
    · exact (Task.roles_replaceStage mine (tells.role s w)).trans
        (h.alike.roles.trans (Task.roles_replaceStage theirs (tells.role s' w')).symm)
    · exact congrArg finished h.alike.finishedStages
    · exact congrArg failed h.alike.failedStages
    · rw [tells.tale, tells.tale, show s.renderer.face = s'.renderer.face from congrArg Prod.snd role]
      exact congrArg (· ++ _) h.tale

theorem runById (h : Agree Task.Alike (t, w) (t', w')) (id : String) (msg : Option String) :
    Answers (t.runById id msg w) (t'.runById id msg w') := by
  refine h.onStage id (fun face => [⟨face, .run msg⟩]) ⟨fun _ _ => rfl, fun s w => ?_⟩ _ _
  exact TaskRenderer.tale_run s.renderer w.now.2 msg

theorem okById (h : Agree Task.Alike (t, w) (t', w')) (id msg : String) :
    Answers (t.okById id msg w) (t'.okById id msg w') := by
  refine h.onStage id (fun face => [⟨face, .success msg 0⟩])
    ⟨fun _ _ => rfl, fun s w => ?_⟩ _ _
  simp only [Stage.success, TaskRenderer.tale_success, Stage.tale_start]
  rfl

theorem failById (h : Agree Task.Alike (t, w) (t', w')) (id : String) (report : ErrorReport) :
    Answers (t.failById id report w) (t'.failById id report w') := by
  refine h.onStage id (fun face => [⟨face, .fail 0⟩, ⟨face, .errorReport report⟩])
    ⟨fun s w => ?_, fun s w => ?_⟩ _ _
  · simp only [Stage.fail, Stage.role, TaskRenderer.face_failInsert]
  · simp only [Stage.fail, TaskRenderer.tale_failInsert, Stage.tale_start]
    rfl

theorem skipById (h : Agree Task.Alike (t, w) (t', w')) (id msg : String) :
    Answers (t.skipById id msg w) (t'.skipById id msg w') :=
  h.onStage id (fun face => [⟨face, .skip msg⟩])
    ⟨fun _ _ => rfl, fun s w => TaskRenderer.tale_skip s.renderer w msg⟩ _ _

theorem forIds {op : Task → String → Screen → Bool × Task × Screen}
    (agrees : ∀ {t t' w w'}, Agree Task.Alike (t, w) (t', w') → ∀ id,
      Answers (op t id w) (op t' id w'))
    (h : Agree Task.Alike (t, w) (t', w')) (ids : List String) :
    Agree Task.Alike (Task.forIds op ids t w) (Task.forIds op ids t' w') := by
  induction ids generalizing t t' w w' with
  | nil => exact h
  | cons id ids ih => exact ih (agrees h id).2

theorem performOk (h : Agree Task.Alike (t, w) (t', w')) (msg : String) :
    Agree Task.Alike (t.performOk msg w) (t'.performOk msg w') := by
  unfold Task.performOk
  rw [h.alike.isFinished, h.alike.ids]
  dsimp only
  split_ifs
  · exact h
  · exact h.setCompleted msg
  · exact h.forIds (fun h id => h.okById id msg) _

theorem performFail (h : Agree Task.Alike (t, w) (t', w')) (error : ErrorReport) :
    Agree Task.Alike (t.performFail error w) (t'.performFail error w') := by
  unfold Task.performFail
  rw [h.alike.isFinished, h.alike.ids]
  split
  · exact h
  · exact (h.forIds (fun h id => h.failById id error) _).setFailedAndClear error

theorem performRun (h : Agree Task.Alike (t, w) (t', w')) (msg : Option String) :
    Agree Task.Alike (t.performRun msg w) (t'.performRun msg w') := by
  unfold Task.performRun
  rw [h.alike.isFinished, h.alike.ids]
  split
  · exact h
  · exact h.forIds (fun h id => h.runById id msg) _

theorem performSkip (h : Agree Task.Alike (t, w) (t', w')) (msg : String) :
    Agree Task.Alike (t.performSkip msg w) (t'.performSkip msg w') := by
  unfold Task.performSkip
  rw [h.alike.isFinished, h.alike.ids]
  split
  · exact h
  · exact h.forIds (fun h id => h.skipById id msg) _

theorem taskStep (h : Agree Task.Alike (t, w) (t', w')) (op : TaskOp) :
    Agree Task.Alike (Task.step (t, w) op) (Task.step (t', w') op) := by
  cases op with
  | runById id msg => exact (h.runById id msg).2
  | okById id msg => exact (h.okById id msg).2
  | failById id report => exact (h.failById id report).2
  | skipById id msg => exact (h.skipById id msg).2
  | run msg => exact h.performRun msg

theorem taskConsume (h : Agree Task.Alike (t, w) (t', w')) (e : TaskEnd) :
    Agree Task.Alike (Task.consume (t, w) e) (Task.consume (t', w') e) := by
  cases e with
  | ok msg => exact h.performOk msg
  | fail error => exact h.performFail error
  | skip msg => exact h.performSkip msg

end Agree

inductive TaskSequence.Alike : TaskSequence → TaskSequence → Prop
  | intro {t t' : Task} (inner : t.Alike t') (currentStage : Nat) (allIds : List String) :
    Alike ⟨t, currentStage, allIds⟩ ⟨t', currentStage, allIds⟩

namespace Agree

variable {t t' : Task} {w w' : Screen}

theorem sequence (h : Agree Task.Alike (t, w) (t', w')) (n : Nat) (ids : List String) :
    Agree TaskSequence.Alike (⟨t, n, ids⟩, w) (⟨t', n, ids⟩, w') :=
  ⟨.intro h.alike n ids, h.tale⟩

variable (n : Nat) (ids : List String)

theorem activateCurrentStage (h : Agree Task.Alike (t, w) (t', w')) :
    Agree TaskSequence.Alike (TaskSequence.activateCurrentStage ⟨t, n, ids⟩ w)
      (TaskSequence.activateCurrentStage ⟨t', n, ids⟩ w') := by
  unfold TaskSequence.activateCurrentStage
  cases ids[n]? with
  | none => exact h.sequence n ids
  | some id => exact (h.runById id none).2.sequence n ids

theorem advance (h : Agree Task.Alike (t, w) (t', w')) :
    Agree TaskSequence.Alike (TaskSequence.advance ⟨t, n, ids⟩ w)
      (TaskSequence.advance ⟨t', n, ids⟩ w') := by
  unfold TaskSequence.advance
  dsimp only
  split
  · exact h.activateCurrentStage (n + 1) ids
  · exact (h.setCompleted "success").sequence (n + 1) ids

theorem ok (h : Agree Task.Alike (t, w) (t', w')) (msg : String) :
    Agree TaskSequence.Alike (TaskSequence.ok ⟨t, n, ids⟩ msg w)
      (TaskSequence.ok ⟨t', n, ids⟩ msg w') := by
  unfold TaskSequence.ok
  cases ids[n]? with
  | none => exact h.sequence n ids
  | some id => exact (h.okById id msg).2.advance n ids

theorem skip (h : Agree Task.Alike (t, w) (t', w')) (msg : String) :
    Agree TaskSequence.Alike (TaskSequence.skip ⟨t, n, ids⟩ msg w)
      (TaskSequence.skip ⟨t', n, ids⟩ msg w') := by
  unfold TaskSequence.skip
  cases ids[n]? with
  | none => exact h.sequence n ids
  | some id => exact (h.skipById id msg).2.advance n ids

theorem skipStages (h : Agree Task.Alike (t, w) (t', w')) (startFrom : Nat) (msg : String) :
    Option.Rel (Agree TaskSequence.Alike) (TaskSequence.skipStages ⟨t, n, ids⟩ startFrom msg w)
      (TaskSequence.skipStages ⟨t', n, ids⟩ startFrom msg w') := by
  unfold TaskSequence.skipStages TaskSequence.idsFrom
  by_cases inside : startFrom ≤ ids.length
  · simp only [inside, if_true]
    exact .some ((h.forIds (fun h id => h.skipById id msg) _).sequence _ ids)
  · simp only [inside, if_false]
    exact .none

theorem fail (h : Agree Task.Alike (t, w) (t', w')) (report : ErrorReport) :
    Option.Rel (Agree TaskSequence.Alike) (TaskSequence.fail ⟨t, n, ids⟩ report w)
      (TaskSequence.fail ⟨t', n, ids⟩ report w') := by
  unfold TaskSequence.fail
  cases ids[n]? with
  | none => exact .some (h.sequence n ids)
  | some id =>
    have failed := (h.failById id report).2
    dsimp only
    split
    · exact failed.skipStages (n + 1) ids (n + 1) _
    · exact .some (failed.sequence (n + 1) ids)

theorem finish (h : Agree Task.Alike (t, w) (t', w')) (msg : String) :
    Option.Rel (Agree TaskSequence.Alike) (TaskSequence.finish ⟨t, n, ids⟩ msg w)
      (TaskSequence.finish ⟨t', n, ids⟩ msg w') := by
  have completed : ∀ x y, Agree TaskSequence.Alike x y →
      Agree TaskSequence.Alike
        ({ x.1 with inner := (x.1.inner.setCompleted msg x.2).1 }, (x.1.inner.setCompleted msg x.2).2)
        ({ y.1 with inner := (y.1.inner.setCompleted msg y.2).1 },
          (y.1.inner.setCompleted msg y.2).2) := by
    rintro ⟨_, _⟩ ⟨_, _⟩ ⟨⟨inner, n, ids⟩, tale⟩
    exact (setCompleted ⟨inner, tale⟩ msg).sequence n ids
  unfold TaskSequence.finish
  dsimp only
  split
  · exact rel_bind (h.skipStages n ids n _) fun x y agree => .some (completed x y agree)
  · exact .some (completed _ _ (h.sequence n ids))

theorem sequenceStep {s s' : TaskSequence} (h : Agree TaskSequence.Alike (s, w) (s', w'))
    (op : SequenceOp) : Option.Rel (Agree TaskSequence.Alike) (TaskSequence.step (s, w) op)
      (TaskSequence.step (s', w') op) := by
  obtain ⟨⟨inner, n, ids⟩, tale⟩ := h
  have inner : Agree Task.Alike (_, w) (_, w') := ⟨inner, tale⟩
  cases op with
  | ok msg => exact .some (inner.ok n ids msg)
  | skip msg => exact .some (inner.skip n ids msg)
  | fail report => exact inner.fail n ids report
  | finish msg => exact inner.finish n ids msg

end Agree

def Step.Alike (p p' : Step) : Prop := p.renderer.face = p'.renderer.face

@[simp] theorem Step.tale_time (p : Step) (w : Screen) : (p.time w).2.tale = w.tale :=
  Screen.tale_of_log p.log_time

namespace Agree

variable {p p' : Step} {w w' : Screen} (h : Agree Step.Alike (p, w) (p', w'))
include h

theorem performRun_step (status : Option String) :
    Agree Step.Alike (p.performRun status w) (p'.performRun status w') := by
  refine ⟨h.alike, ?_⟩
  have told (p : Step) (w : Screen) :
      (p.performRun status w).2.tale = w.tale ++ [p.renderer.tells (.run status)] :=
    p.renderer.tale_run w status
  simp only [told, TaskRenderer.tells, show p.renderer.face = _ from h.alike,
    show w.tale = _ from h.tale]

theorem performOk_step (status : String) :
    (p.performOk status w).tale = (p'.performOk status w').tale := by
  simp only [Step.performOk, TaskRenderer.tale_success, Step.tale_time, TaskRenderer.tells,
    show p.renderer.face = _ from h.alike, show w.tale = _ from h.tale]

theorem performFail_step (error : ErrorReport) :
    Agree Step.Alike (p.performFail error w) (p'.performFail error w') := by
  constructor
  · simp only [Step.performFail, Step.Alike, TaskRenderer.face_failInsert]
    exact h.alike
  · simp only [Step.performFail, TaskRenderer.tale_failInsert, Step.tale_time, TaskRenderer.tells,
      show p.renderer.face = _ from h.alike, show w.tale = _ from h.tale]

theorem performSkip_step (status : String) :
    (p.performSkip status w).tale = (p'.performSkip status w').tale := by
  simp only [Step.performSkip, TaskRenderer.tale_skip, TaskRenderer.tells,
    show p.renderer.face = _ from h.alike, show w.tale = _ from h.tale]

end Agree

namespace TaskBuilder

def roleOf : BuilderStep → Option (String × Face)
  | .stage id name _ => some (id, ⟨name, childIndentSpaces⟩)
  | .group _ => none

variable {b : TaskBuilder}

theorem Child.face {name : String} {r : TaskRenderer} (h : b.Child name r) :
    r.face = ⟨name, childIndentSpaces⟩ := by
  rw [TaskRenderer.face, h.name, h.indentSpaces]

theorem Entered.face {running : Bool} {step : BuilderStep} {entry : TaskEntry}
    (h : b.Entered running step entry) :
    entry.renderer.face = ⟨step.childName, childIndentSpaces⟩ := by
  cases step <;> cases entry
  · exact h.2.2.face
  · exact h.elim
  · exact h.elim
  · exact Child.face h

theorem roles_of_entered {steps : List BuilderStep} {entries : List TaskEntry}
    (entered : List.Forall₂ (b.Entered false) steps entries) :
    (entries.filterMap TaskEntry.stage?).map Stage.role = steps.filterMap roleOf := by
  induction entered with
  | nil => rfl
  | @cons step entry steps entries here _ ih =>
    cases step <;> cases entry
    · simp [TaskEntry.stage?, roleOf, Stage.role, here.1, here.2.2.face, ih]
    · exact here.elim
    · exact here.elim
    · simp [List.filterMap_cons, TaskEntry.stage?, roleOf, ih]

theorem tells_records {steps : List BuilderStep} {entries : List TaskEntry}
    (entered : List.Forall₂ (b.Entered false) steps entries) :
    (records steps entries).map Record.told =
      steps.map fun step => ⟨⟨step.childName, childIndentSpaces⟩, step.event.untimed⟩ := by
  induction entered with
  | nil => rfl
  | cons here _ ih => simpa [records, Record.told, TaskRenderer.tells, here.face] using ih

structure Begun (b : TaskBuilder) (w : Screen) (t : Task) (w' : Screen) : Prop where
  root : t.renderer.face = ⟨b.name, 0⟩
  roles : t.roles = b.steps.filterMap roleOf
  finishedStages : t.finishedStages = ∅
  failedStages : t.failedStages = ∅
  isFinished : t.isFinished = false
  tale : w'.tale = w.tale ++ ⟨⟨b.name, 0⟩, .title⟩ ::
    b.steps.map fun step => ⟨⟨step.childName, childIndentSpaces⟩, step.event.untimed⟩

theorem start_begun (b : TaskBuilder) (autoIndent : Bool) (w : Screen) :
    ∃ t w', b.Begun w t w' ∧ b.start autoIndent w =
      some (Task.forIds (fun t id w => t.runById id none w)
        (b.steps.filterMap BuilderStep.autostartId) t w') := by
  obtain ⟨name, -, indentSpaces, log, -⟩ := createHeadRenderer_head b w
  obtain ⟨-, -, -, present⟩ := b.createHeadRenderer_spec w
  obtain ⟨s, built, -⟩ := build_progress autoIndent
    ((b.createHeadRenderer w).1.title (b.createHeadRenderer w).2.2) present
  obtain ⟨children, spacers, scripted⟩ := build_built built
  have head : (b.createHeadRenderer w).1.face = ⟨b.name, 0⟩ := by
    rw [TaskRenderer.face, name, indentSpaces]
  refine ⟨_, _, ?_, by simp only [start, built, ← scripted.autostart]; rfl⟩
  refine ⟨head, ?_, rfl, rfl, rfl, ?_⟩
  · rw [Task.roles, Task.stageIterator, ← roles_of_entered scripted.entered]
    simp [Task.new, scripted.split, TaskEntry.stage?, Function.comp_def]
  · have placed : (Task.new (b.createHeadRenderer w).1 s.entries
        (b.placeAnchor s.insertionPoint s.screen)).2.log = s.screen.log :=
      log_placeAnchor b s.insertionPoint s.screen
    rw [Screen.tale_of_log placed, Screen.tale, scripted.log, List.map_append,
      tells_records scripted.entered, ← Screen.tale, TaskRenderer.tale_title,
      Screen.tale_of_log log, TaskRenderer.tells, head]
    simp [Event.untimed]

theorem start_agrees (b b' : TaskBuilder) (name : b.name = b'.name) (steps : b.steps = b'.steps)
    (autoIndent : Bool) {w w' : Screen} (tale : w.tale = w'.tale) :
    Option.Rel (Agree Task.Alike) (b.start autoIndent w) (b'.start autoIndent w') := by
  obtain ⟨t, mid, begun, started⟩ := b.start_begun autoIndent w
  obtain ⟨t', mid', begun', started'⟩ := b'.start_begun autoIndent w'
  have alike : t.Alike t' :=
    ⟨by rw [begun.root, begun'.root, name], by rw [begun.roles, begun'.roles, steps],
      begun.finishedStages.trans begun'.finishedStages.symm,
      begun.failedStages.trans begun'.failedStages.symm,
      begun.isFinished.trans begun'.isFinished.symm⟩
  have same : mid.tale = mid'.tale := by rw [begun.tale, begun'.tale, tale, name, steps]
  rw [started, started', steps]
  exact .some (Agree.forIds (fun h id => h.runById id none) ⟨alike, same⟩ _)

end TaskBuilder

/-- A call with another style. -/
def SessionOp.restyle (f : TaskStyle → TaskStyle) : SessionOp → SessionOp
  | newStep style name autoRun => .newStep (f style) name autoRun
  | newTask style name steps autoIndent => .newTask (f style) name steps autoIndent
  | newSequence style name steps autostart autoIndent =>
    .newSequence (f style) name steps autostart autoIndent
  | op => op

theorem TaskEngine.step_agrees (e e' : TaskEngine) (name : String) (autoRun : Bool)
    {w w' : Screen} (tale : w.tale = w'.tale) :
    Agree Step.Alike (e.step name autoRun w) (e'.step name autoRun w') := by
  have waiting (e : TaskEngine) (w : Screen) :
      (e.step name false w).1.renderer.face = ⟨name, 0⟩ ∧
        (e.step name false w).2.tale = w.tale ++ [⟨⟨name, 0⟩, .wait none⟩] := by
    cases mode : e.mode <;> simp only [step, mode] <;>
      exact ⟨rfl, TaskRenderer.tale_wait _ _ none⟩
  have agree : Agree Step.Alike (e.step name false w) (e'.step name false w') :=
    ⟨(waiting e w).1.trans (waiting e' w').1.symm, by rw [(waiting e w).2, (waiting e' w').2, tale]⟩
  cases autoRun with
  | false => exact agree
  | true => exact agree.performRun_step none

theorem TaskSequence.new_agrees {t t' : Task} {w w' : Screen}
    (h : Agree Task.Alike (t, w) (t', w')) (autostart : Bool) :
    Agree TaskSequence.Alike (TaskSequence.new t autostart w) (TaskSequence.new t' autostart w') := by
  have ids : t.stageIterator.map (·.id) = t'.stageIterator.map (·.id) := h.alike.ids
  unfold TaskSequence.new
  rw [ids]
  cases autostart with
  | false => exact h.sequence 0 _
  | true => exact h.activateCurrentStage 0 _

theorem TaskSequenceBuilder.chain_congr (b b' : TaskSequenceBuilder)
    (name : b.inner.name = b'.inner.name) (steps : b.inner.steps = b'.inner.steps)
    (counter : b.stageCounter = b'.stageCounter) (more : List SequenceStep) :
    (b.chain more).inner.name = (b'.chain more).inner.name ∧
      (b.chain more).inner.steps = (b'.chain more).inner.steps := by
  induction more generalizing b b' with
  | nil => exact ⟨name, steps⟩
  | cons step more ih =>
    cases step with
    | stage stageName =>
      refine ih (b.withStage stageName) (b'.withStage stageName) name ?_
        (congrArg (· + 1) counter)
      simp [withStage, TaskBuilder.withStage, steps, counter]
    | group header =>
      refine ih (b.withGroup header) (b'.withGroup header) name ?_ counter
      simp [withGroup, TaskBuilder.withGroup, steps]

inductive Element.Alike : Element → Element → Prop
  | task {t t' : Task} (h : t.Alike t') : Alike (.task t) (.task t')
  | sequence {q q' : TaskSequence} (h : q.Alike q') : Alike (.sequence q) (.sequence q')
  | step {p p' : Step} (h : p.Alike p') : Alike (.step p) (.step p')

structure Slot.Alike (x y : Slot) : Prop where
  element : x.element.Alike y.element
  owned : x.owned = y.owned

def Task.answer (t : Task) (op : TaskOp) (w : Screen) : Option Bool :=
  match op with
  | .runById id msg => some (t.runById id msg w).1
  | .okById id msg => some (t.okById id msg w).1
  | .failById id report => some (t.failById id report w).1
  | .skipById id msg => some (t.skipById id msg w).1
  | .run _ => none

namespace Session

/-- An element is created by an engine in the mode; a program keeps nothing of a space. -/
def createIn (mode : RenderMode) (s : Session) : SessionOp → Option Session
  | .space => some { s with screen := ((TaskEngine.mk .plain mode).space s.screen).2 }
  | .newStep style name autoRun =>
    let (step, w) := (TaskEngine.mk style mode).step name autoRun s.screen
    some (s.push (.step step) w)
  | .newTask style name steps autoIndent => do
    let builder := (TaskEngine.mk style mode).task name
    let (task, w) ← { builder with steps }.start autoIndent s.screen
    some (s.push (.task task) w)
  | .newSequence style name steps autostart autoIndent => do
    let builder := ((TaskEngine.mk style mode).sequence name).chain steps
    let (sequence, w) ← builder.launch autostart autoIndent s.screen
    some (s.push (.sequence sequence) w)
  | _ => none

def stepIn (mode : RenderMode) (s : Session) (op : SessionOp) : Option Session :=
  if op.creates then s.createIn mode op else s.step op

theorem stepIn_plain : stepIn .plain = stepPlain := by
  funext s op
  cases op <;> rfl

theorem stepIn_interactive {s : Session} {op : SessionOp} (kept : op ≠ .space) :
    s.stepIn .interactive op = s.step op := by
  cases op <;> first | rfl | exact absurd rfl kept

structure Alike (s s' : Session) : Prop where
  slots : List.Forall₂ Slot.Alike s.slots s'.slots
  tale : s.screen.tale = s'.screen.tale

variable {s s' : Session}

theorem Alike.push (h : s.Alike s') {element element' : Element} {w w' : Screen}
    (alike : element.Alike element') (tale : w.tale = w'.tale) :
    (s.push element w).Alike (s'.push element' w') :=
  ⟨List.rel_append h.slots (.cons ⟨alike, rfl⟩ .nil), tale⟩

theorem Alike.set (h : s.Alike s') (i : Nat) (owned : Bool) {element element' : Element}
    {w w' : Screen} (alike : element.Alike element') (tale : w.tale = w'.tale) :
    (s.set i element owned w).Alike (s'.set i element' owned w') :=
  ⟨rel_set h.slots i ⟨alike, rfl⟩, tale⟩

theorem Alike.get? (h : s.Alike s') (i : Nat) :
    Option.Rel Element.Alike (s.get? i) (s'.get? i) := by
  have owned (s : Session) : s.get? i =
      s.slots[i]?.bind fun slot => if slot.owned then some slot.element else none := by
    unfold Session.get?
    rcases s.slots[i]? with _ | ⟨element, _ | _⟩ <;> rfl
  rw [owned, owned]
  refine rel_bind (rel_getElem? h.slots i) fun x y alike => ?_
  rw [alike.owned]
  split
  · exact .some alike.element
  · exact .none

theorem Alike.create (h : s.Alike s') (mode mode' : RenderMode) (f : TaskStyle → TaskStyle)
    (op : SessionOp) :
    Option.Rel Alike (s.createIn mode op) (s'.createIn mode' (op.restyle f)) := by
  cases op with
  | space =>
    have silent (mode : RenderMode) (s : Session) :
        ((TaskEngine.mk .plain mode).space s.screen).2.tale = s.screen.tale := by
      cases mode <;> rfl
    exact .some ⟨h.slots, (silent mode s).trans (h.tale.trans (silent mode' s').symm)⟩
  | newStep style name autoRun =>
    have agree := TaskEngine.step_agrees ⟨style, mode⟩ ⟨f style, mode'⟩ name autoRun h.tale
    exact .some (h.push (.step agree.alike) agree.tale)
  | newTask style name steps autoIndent =>
    have started := TaskBuilder.start_agrees ⟨name, steps, style, mode⟩
      ⟨name, steps, f style, mode'⟩ rfl rfl autoIndent h.tale
    exact rel_bind started fun _ _ agree => .some (h.push (.task agree.alike) agree.tale)
  | newSequence style name steps autostart autoIndent =>
    obtain ⟨names, script⟩ := TaskSequenceBuilder.chain_congr
      ((TaskEngine.mk style mode).sequence name)
      ((TaskEngine.mk (f style) mode').sequence name) rfl rfl rfl steps
    refine rel_bind (R := Agree TaskSequence.Alike) ?_ fun _ _ agree =>
      .some (h.push (.sequence agree.alike) agree.tale)
    rw [TaskSequenceBuilder.launch_eq, TaskSequenceBuilder.launch_eq]
    exact rel_map (TaskBuilder.start_agrees _ _ names script autoIndent h.tale) fun _ _ agree =>
      TaskSequence.new_agrees agree autostart
  | task | endTask | sequence | runStep | endStep => exact .none

theorem Alike.step (h : s.Alike s') {op : SessionOp} (call : op.creates = false) :
    Option.Rel Alike (s.step op) (s'.step op) := by
  cases op with
  | task i op =>
    have found := h.get? i
    simp only [Session.step]
    generalize s.get? i = x, s'.get? i = y at found
    rcases found with ⟨alike | _ | _⟩ | _
    · have agree := Agree.taskStep ⟨alike, h.tale⟩ op
      exact .some (h.set i true (.task agree.alike) agree.tale)
    all_goals exact .none
  | endTask i e =>
    have found := h.get? i
    simp only [Session.step]
    generalize s.get? i = x, s'.get? i = y at found
    rcases found with ⟨alike | _ | _⟩ | _
    · have agree := Agree.taskConsume ⟨alike, h.tale⟩ e
      exact .some (h.set i false (.task agree.alike) agree.tale)
    all_goals exact .none
  | sequence i op =>
    have found := h.get? i
    simp only [Session.step]
    generalize s.get? i = x, s'.get? i = y at found
    rcases found with ⟨_ | alike | _⟩ | _
    · exact .none
    · exact rel_bind (Agree.sequenceStep ⟨alike, h.tale⟩ op) fun _ _ agree =>
        .some (h.set i true (.sequence agree.alike) agree.tale)
    all_goals exact .none
  | runStep i status =>
    have found := h.get? i
    simp only [Session.step]
    generalize s.get? i = x, s'.get? i = y at found
    rcases found with ⟨_ | _ | alike⟩ | _
    · exact .none
    · exact .none
    · have agree := Agree.performRun_step ⟨alike, h.tale⟩ status
      exact .some (h.set i true (.step agree.alike) agree.tale)
    · exact .none
  | endStep i e =>
    have found := h.get? i
    simp only [Session.step]
    generalize s.get? i = x, s'.get? i = y at found
    rcases found with ⟨_ | _ | alike⟩ | _
    · exact .none
    · exact .none
    · cases e with
      | ok status =>
        exact .some (h.set i false (.step alike) (Agree.performOk_step ⟨alike, h.tale⟩ status))
      | fail error =>
        have agree := Agree.performFail_step ⟨alike, h.tale⟩ error
        exact .some (h.set i false (.step agree.alike) agree.tale)
      | skip status =>
        exact .some (h.set i false (.step alike) (Agree.performSkip_step ⟨alike, h.tale⟩ status))
    · exact .none
  | space | newStep | newTask | newSequence => cases call

theorem Alike.stepIn (h : s.Alike s') (mode mode' : RenderMode) (f : TaskStyle → TaskStyle)
    (op : SessionOp) :
    Option.Rel Alike (s.stepIn mode op) (s'.stepIn mode' (op.restyle f)) := by
  have creates : (op.restyle f).creates = op.creates := by cases op <;> rfl
  unfold Session.stepIn
  rw [creates]
  split
  · exact h.create mode mode' f op
  · rename_i call
    have same : op.restyle f = op := by
      cases op <;> first | rfl | exact absurd rfl call
    rw [same]
    exact h.step (by simpa using call)

def answer (s : Session) : SessionOp → Option Bool
  | .task i op =>
    match s.get? i with
    | some (.task t) => t.answer op s.screen
    | _ => none
  | _ => none

theorem Alike.answer (h : s.Alike s') (op : SessionOp) : s.answer op = s'.answer op := by
  cases op with
  | task i op =>
    have found := h.get? i
    simp only [Session.answer]
    generalize s.get? i = x, s'.get? i = y at found
    rcases found with ⟨alike | _ | _⟩ | _
    · have agree : Agree Task.Alike (_, s.screen) (_, s'.screen) := ⟨alike, h.tale⟩
      cases op with
      | runById id msg => exact congrArg some (agree.runById id msg).1
      | okById id msg => exact congrArg some (agree.okById id msg).1
      | failById id report => exact congrArg some (agree.failById id report).1
      | skipById id msg => exact congrArg some (agree.skipById id msg).1
      | run msg => rfl
    all_goals rfl
  | space | newStep | newTask | newSequence | endTask | sequence | runStep | endStep => rfl

/-- How a program comes out: through, or stopped at the first style that a bar refuses,
with the renderings made until then. -/
inductive Ending where
  | through (s : Session)
  | stopped (log : List Record)

section Drawn

variable (g : StyleGrammar) (c : Console) (ticks : String → Nat)

def runDrawn (mode : RenderMode) (s : Session) : List SessionOp → Option Ending
  | [] => some (.through s)
  | op :: ops => do
    let next ← s.stepIn mode op
    if next.screen.log.all (·.draws g c ticks) then next.runDrawn mode ops
    else some (.stopped (next.screen.log.takeWhile (·.draws g c ticks)))

/-- A program that would lead to the session if no style was refused leads to it, or is
stopped in interactive mode with a beginning of its tale. -/
def Comes (mode : RenderMode) (start : Session) (ops : List SessionOp) (s : Session) : Prop :=
  start.runDrawn g c ticks mode ops = some (.through s) ∨
    mode = .interactive ∧ ∃ log, start.runDrawn g c ticks mode ops = some (.stopped log) ∧
      log.map Record.told <+: s.screen.tale

structure Plain (p : Session) : Prop where
  renderers : p.All Renderers.InPlain
  log : ∀ r ∈ p.screen.log, ∃ ciPrefix, r.renderer.strategy = .plain ciPrefix

theorem plain_step {p next : Session} {op : SessionOp} (plain : p.Plain)
    (taken : p.stepIn .plain op = some next) :
    next.Plain ∧ p.screen.log <+: next.screen.log := by
  rw [stepIn_plain] at taken
  have gives (c : Renderers) (gives : op.Gives c) := gives.plain
  have any : ∀ msg ∈ fixedMessages, (fun _ : String => True) msg := fun _ _ => trivial
  have cases := stepPlain_cases any plain.renderers (fun _ _ => trivial) taken
  have renderers := plain.renderers.stepPlain (fun _ _ => .within) gives cases
  rcases subject_adds gives plain.renderers cases with rfl | ⟨c, -, inPlain, added, log, all⟩
  · exact ⟨plain, List.prefix_refl _⟩
  · refine ⟨⟨renderers, ?_⟩, log ▸ List.prefix_append _ _⟩
    rw [log]
    exact List.forall_mem_append.mpr
      ⟨plain.log, fun r member => inPlain.plain (all r member).1⟩

variable {g c ticks} {mode : RenderMode} {s p : Session}

theorem runDrawn_cons {next : Session} {op : SessionOp} (taken : s.stepIn mode op = some next)
    (ops : List SessionOp) :
    s.runDrawn g c ticks mode (op :: ops) =
      if next.screen.log.all (·.draws g c ticks) then next.runDrawn g c ticks mode ops
      else some (.stopped (next.screen.log.takeWhile (·.draws g c ticks))) := by
  rw [runDrawn, taken]
  rfl

theorem Alike.plain_step (h : s.Alike p) (plain : p.Plain) {op : SessionOp} {next : Session}
    (taken : s.stepIn mode op = some next) :
    ∃ p', next.Alike p' ∧ p'.Plain ∧ s.screen.tale <+: next.screen.tale := by
  have together := h.stepIn mode .plain id op
  rw [taken] at together
  generalize step : p.stepIn .plain (op.restyle id) = y at together
  cases together with
  | @some _ p' alike =>
    obtain ⟨plain', grows⟩ := Session.plain_step plain step
    refine ⟨p', alike, plain', ?_⟩
    rw [h.tale, alike.tale]
    exact grows.map _

theorem Alike.tale_grows (h : s.Alike p) (plain : p.Plain) {ops : List SessionOp} {t : Session}
    (reached : run (Session.stepIn mode) s ops = some t) : s.screen.tale <+: t.screen.tale := by
  induction ops generalizing s p with
  | nil => exact Option.some.inj reached ▸ List.prefix_refl _
  | cons op ops ih =>
    obtain ⟨next, taken, rest⟩ := run_cons_eq_some.mp reached
    obtain ⟨p', alike, plain', grows⟩ := h.plain_step plain taken
    exact grows.trans (ih alike plain' rest)

theorem Plain.comes (plain : p.Plain) {ops : List SessionOp} {t : Session}
    (reached : run (Session.stepIn .plain) p ops = some t) : Comes g c ticks .plain p ops t := by
  refine .inl ?_
  induction ops generalizing p with
  | nil => exact congrArg (fun s => some (Ending.through s)) (Option.some.inj reached)
  | cons op ops ih =>
    obtain ⟨next, taken, rest⟩ := run_cons_eq_some.mp reached
    obtain ⟨plain', -⟩ := Session.plain_step plain taken
    have drawn : next.screen.log.all (·.draws g c ticks) = true := List.all_eq_true.mpr
      fun r member => by
        obtain ⟨ciPrefix, strategy⟩ := plain'.log r member
        exact draws_of_plain strategy r.event
    rw [runDrawn_cons taken, if_pos drawn]
    exact ih plain' rest

theorem Alike.comes (h : s.Alike p) (plain : p.Plain) {ops : List SessionOp} {t : Session}
    (reached : run (Session.stepIn .interactive) s ops = some t) :
    Comes g c ticks .interactive s ops t := by
  induction ops generalizing s p with
  | nil => exact .inl (congrArg (fun s => some (Ending.through s)) (Option.some.inj reached))
  | cons op ops ih =>
    obtain ⟨next, taken, rest⟩ := run_cons_eq_some.mp reached
    obtain ⟨p', alike, plain', -⟩ := h.plain_step plain taken
    unfold Comes
    rw [runDrawn_cons taken]
    split
    · exact ih alike plain' rest
    · refine .inr ⟨rfl, _, rfl, ?_⟩
      have early := (List.takeWhile_prefix (Record.draws g c ticks) (l := next.screen.log)).map
        Record.told
      exact early.trans (alike.tale_grows plain' rest)

end Drawn

/-- One program makes the same calls, tells one tale and gets the same answers, whatever
its mode, its styles and its clock are; where its bars refuse a style it is stopped in
interactive mode, with a beginning of the tale. -/
theorem modes_tell_one_tale (mode mode' : RenderMode) (f : TaskStyle → TaskStyle)
    (clock clock' : Nat → Instant) (ops : List SessionOp) (g : StyleGrammar) (c : Console)
    (ticks : String → Nat) :
    Option.Rel
      (fun s s' => s.screen.tale = s'.screen.tale ∧
        (∀ op, s.answer op = s'.answer (op.restyle f)) ∧
        Comes g c ticks mode (Session.new clock) ops s ∧
        Comes g c ticks mode' (Session.new clock') (ops.map (SessionOp.restyle f)) s')
      (run (Session.stepIn mode) (Session.new clock) ops)
      (run (Session.stepIn mode') (Session.new clock') (ops.map (SessionOp.restyle f))) := by
  have start : (Session.new clock).Alike (Session.new clock') := ⟨.nil, rfl⟩
  have comes (mode : RenderMode) (clock : Nat → Instant) (ops : List SessionOp) {t : Session}
      (reached : run (stepIn mode) (Session.new clock) ops = some t) :
      Comes g c ticks mode (Session.new clock) ops t := by
    have plain : (Session.new clock).Plain := ⟨fun _ => nofun, fun _ => nofun⟩
    have alike : (Session.new clock).Alike (Session.new clock) := ⟨.nil, rfl⟩
    cases mode with
    | plain => exact plain.comes reached
    | interactive => exact alike.comes plain reached
  have together := run_lockstep Session.Alike (SessionOp.restyle f)
    (fun s s' op alike => alike.stepIn mode mode' f op) start ops
  generalize first : run (Session.stepIn mode) (Session.new clock) ops = x,
    second : run (Session.stepIn mode') (Session.new clock') (ops.map (SessionOp.restyle f)) = y
    at together
  cases together with
  | none => exact .none
  | some alike =>
    refine .some ⟨alike.tale, fun op => ?_, comes mode clock ops first,
      comes mode' clock' _ second⟩
    rw [alike.answer]
    cases op <;> rfl

def Ending.isStopped : Ending → Bool
  | .through _ => false
  | .stopped _ => true

/-- A group with a header that is no template. -/
def headed : List SessionOp :=
  [.newTask .modern "deploy" [.stage "build" "build" true, .group (some "\x7b\x7d")] true, .space]

theorem modes_tell_one_tale_headed :
    ∃ s s' log, run (stepIn .interactive) (Session.new id) headed = some s ∧
      run (stepIn .plain) (Session.new id) headed = some s' ∧ s.screen.tale = s'.screen.tale ∧
      (Session.new id).runDrawn (.strict _) .colourless String.length .interactive headed =
        some (.stopped log) ∧ log.map Record.told <+: s'.screen.tale := by
  obtain ⟨s, interactive⟩ := Option.isSome_iff_exists.mp
    (show (run (stepIn .interactive) (Session.new id) headed).isSome = true by decide +kernel)
  obtain ⟨s', plain⟩ := Option.isSome_iff_exists.mp
    (show (run (stepIn .plain) (Session.new id) headed).isSome = true by decide +kernel)
  have stopped : ((Session.new id).runDrawn (.strict _) .colourless String.length .interactive
      headed).any Ending.isStopped = true := by decide +kernel
  have together := modes_tell_one_tale .interactive .plain id id id headed (.strict _)
    .colourless String.length
  rw [show headed.map (SessionOp.restyle id) = headed from rfl, interactive, plain] at together
  cases together with
  | some told =>
    obtain ⟨tale, -, through | ⟨-, log, stops, early⟩, -⟩ := told
    · rw [through] at stopped
      cases stopped
    · exact ⟨s, s', log, interactive, plain, tale, stops, tale ▸ early⟩

end Session

end KnotOps.Terminal
