import KnotOps.Terminal.Renderer
import Mathlib.Data.Finset.Basic

/-! Stages, tasks and the operations on them.
The four operations on a stage id differ in what they render on the stage and
in how they move its id between the two status sets; `onStage` is what they
share.  A `&mut self` method returns the task next to its result, and the
screen is threaded through. -/

namespace KnotOps.Terminal

structure Stage where
  id : String
  renderer : TaskRenderer
  startTime : Option Instant
deriving DecidableEq, Repr

namespace Stage

def new (id : String) (renderer : TaskRenderer) : Stage :=
  ⟨id, renderer, none⟩

/-- `start_time.unwrap_or_else(Instant::now)`. -/
def start (s : Stage) (w : Screen) : Instant × Screen :=
  match s.startTime with
  | some start => (start, w)
  | none => w.now

def run (s : Stage) (msg : Option String) (w : Screen) : Screen :=
  s.renderer.run msg w

def success (s : Stage) (msg : String) (w : Screen) : Screen :=
  let (start, w) := s.start w
  s.renderer.success msg start w

def fail (s : Stage) (error : ErrorReport) (w : Screen) : Stage × Screen :=
  let (start, w) := s.start w
  let (renderer, w) := s.renderer.failInsert error start w
  ({ s with renderer }, w)

def skip (s : Stage) (msg : String) (w : Screen) : Screen :=
  s.renderer.skip msg w

end Stage

inductive TaskEntry where
  | stage (s : Stage)
  | extra (r : TaskRenderer)
deriving DecidableEq, Repr

namespace TaskEntry

def renderer : TaskEntry → TaskRenderer
  | stage s => s.renderer
  | extra r => r

def stage? : TaskEntry → Option Stage
  | stage s => some s
  | extra _ => none

end TaskEntry

structure Task where
  renderer : TaskRenderer
  entries : List TaskEntry
  startTime : Instant
  finishedStages : Finset String
  failedStages : Finset String
  isFinished : Bool
deriving DecidableEq

/-- The first entry that is a stage with the id, replaced in its place. -/
def replaceStage (id : String) (s : Stage) : List TaskEntry → List TaskEntry
  | [] => []
  | .stage old :: rest =>
    if old.id = id then .stage s :: rest else .stage old :: replaceStage id s rest
  | .extra r :: rest => .extra r :: replaceStage id s rest

theorem replaceStage_split {id : String} {old : Stage} {entries : List TaskEntry}
    (found : (entries.filterMap TaskEntry.stage?).find? (·.id = id) = some old) :
    ∃ before after, entries = before ++ .stage old :: after ∧
      ∀ s, replaceStage id s entries = before ++ .stage s :: after := by
  induction entries with
  | nil => simp at found
  | cons entry rest ih =>
    cases entry with
    | extra r =>
      rw [List.filterMap_cons_none rfl] at found
      obtain ⟨before, after, split, replaced⟩ := ih found
      refine ⟨.extra r :: before, after, by rw [split]; rfl, fun s => ?_⟩
      rw [replaceStage, replaced]
      rfl
    | stage first =>
      rw [List.filterMap_cons_some (show TaskEntry.stage? (.stage first) = some first from rfl)]
        at found
      by_cases here : first.id = id
      · have same : first = old := by simpa [here] using found
        refine ⟨[], rest, by rw [same]; rfl, fun s => ?_⟩
        rw [replaceStage, if_pos here]
        rfl
      · rw [List.find?_cons_of_neg (by simpa using here)] at found
        obtain ⟨before, after, split, replaced⟩ := ih found
        refine ⟨.stage first :: before, after, by rw [split]; rfl, fun s => ?_⟩
        rw [replaceStage, if_neg here, replaced]
        rfl

def clearEntries : List TaskEntry → Screen → List LayoutNode × Screen
  | [], w => ([], w)
  | entry :: rest, w =>
    let (nodes, _, w) := entry.renderer.clear w
    let (nodesToClear, w) := clearEntries rest w
    (nodes ++ nodesToClear, w)

namespace Task

def new (renderer : TaskRenderer) (entries : List TaskEntry) (w : Screen) : Task × Screen :=
  let (now, w) := w.now
  (⟨renderer, entries, now, ∅, ∅, false⟩, w)

def clearChildren (t : Task) (w : Screen) : Task × Screen :=
  let (nodesToClear, w) := clearEntries t.entries w
  let w := match t.renderer.strategy with
    | .interactive mainNode _ =>
      { w with layout := w.layout.updateAnchorIfIn nodesToClear mainNode }
    | .plain _ => w
  ({ t with entries := [] }, w)

def finishChildren (t : Task) (w : Screen) : Screen :=
  t.entries.foldl (fun w entry => entry.renderer.finishSilently w) w

def setCompleted (t : Task) (msg : String) (w : Screen) : Task × Screen :=
  if t.isFinished then (t, w)
  else { t with isFinished := true }.clearChildren (t.renderer.success msg t.startTime w)

def setFailedAndInsert (t : Task) (error : ErrorReport) (w : Screen) : Task × Screen :=
  let (renderer, w) := t.renderer.failInsert error t.startTime w
  ({ t with renderer, isFinished := true }, w)

def setFailedAndFreeze (t : Task) (w : Screen) : Task × Screen :=
  let w := t.renderer.fail t.startTime w
  let t := { t with isFinished := true }
  (t, t.finishChildren w)

def setFailedAndClear (t : Task) (error : ErrorReport) (w : Screen) : Task × Screen :=
  let (t, w) := t.setFailedAndInsert error w
  t.clearChildren w

def stageIterator (t : Task) : List Stage :=
  t.entries.filterMap TaskEntry.stage?

def updateState (t : Task) (w : Screen) : Bool × Task × Screen :=
  if t.isFinished then (false, t, w)
  else if t.failedStages.Nonempty then (true, t.setFailedAndFreeze w)
  else if t.stageIterator.all (·.id ∈ t.finishedStages) then (true, t.setCompleted "success" w)
  else (true, t, w)

def getStage (t : Task) (id : String) : Option Stage :=
  t.stageIterator.find? (·.id = id)

/-- The shape of the operations on a stage id: look the stage up, act on it,
move its id between the sets, and evaluate the root again. -/
def onStage (t : Task) (id : String) (act : Stage → Screen → Stage × Screen)
    (finished failed : Finset String → Finset String) (w : Screen) : Bool × Task × Screen :=
  match t.getStage id with
  | none => (false, t, w)
  | some stage =>
    let (stage, w) := act stage w
    { t with
      entries := replaceStage id stage t.entries
      finishedStages := finished t.finishedStages
      failedStages := failed t.failedStages }.updateState w

def runById (t : Task) (id : String) (msg : Option String) (w : Screen) : Bool × Task × Screen :=
  t.onStage id
    (fun stage w =>
      let (now, w) := w.now
      ({ stage with startTime := some now }, stage.run msg w))
    (·.erase id) (·.erase id) w

def okById (t : Task) (id msg : String) (w : Screen) : Bool × Task × Screen :=
  t.onStage id (fun stage w => (stage, stage.success msg w)) (insert id) (·.erase id) w

def failById (t : Task) (id : String) (report : ErrorReport) (w : Screen) :
    Bool × Task × Screen :=
  t.onStage id (fun stage w => stage.fail report w) (·.erase id) (insert id) w

def skipById (t : Task) (id msg : String) (w : Screen) : Bool × Task × Screen :=
  t.onStage id (fun stage w => (stage, stage.skip msg w)) (insert id) (·.erase id) w

def collectStageIds (t : Task) : List String :=
  t.stageIterator.map (·.id)

def forIds (op : Task → String → Screen → Bool × Task × Screen) (ids : List String) (t : Task)
    (w : Screen) : Task × Screen :=
  ids.foldl (fun (t, w) id => (op t id w).2) (t, w)

def performOk (t : Task) (msg : String) (w : Screen) : Task × Screen :=
  if t.isFinished then (t, w)
  else
    let ids := t.collectStageIds
    if ids.isEmpty then t.setCompleted msg w
    else forIds (fun t id w => t.okById id msg w) ids t w

def performFail (t : Task) (error : ErrorReport) (w : Screen) : Task × Screen :=
  if t.isFinished then (t, w)
  else
    let (t, w) := forIds (fun t id w => t.failById id error w) t.collectStageIds t w
    t.setFailedAndClear error w

def performRun (t : Task) (msg : Option String) (w : Screen) : Task × Screen :=
  if t.isFinished then (t, w)
  else forIds (fun t id w => t.runById id msg w) t.collectStageIds t w

def performSkip (t : Task) (msg : String) (w : Screen) : Task × Screen :=
  if t.isFinished then (t, w)
  else forIds (fun t id w => t.skipById id msg w) t.collectStageIds t w

end Task

/-- The public calls that keep the task: the four by id and the bulk run. -/
inductive TaskOp where
  | runById (id : String) (msg : Option String)
  | okById (id msg : String)
  | failById (id : String) (report : ErrorReport)
  | skipById (id msg : String)
  | run (msg : Option String)
deriving DecidableEq, Repr

/-- The public calls that consume it. -/
inductive TaskEnd where
  | ok (msg : String)
  | fail (error : ErrorReport)
  | skip (msg : String)
deriving DecidableEq, Repr

namespace Task

def step (s : Task × Screen) : TaskOp → Task × Screen
  | .runById id msg => (s.1.runById id msg s.2).2
  | .okById id msg => (s.1.okById id msg s.2).2
  | .failById id report => (s.1.failById id report s.2).2
  | .skipById id msg => (s.1.skipById id msg s.2).2
  | .run msg => s.1.performRun msg s.2

def consume (s : Task × Screen) : TaskEnd → Task × Screen
  | .ok msg => s.1.performOk msg s.2
  | .fail error => s.1.performFail error s.2
  | .skip msg => s.1.performSkip msg s.2

end Task

end KnotOps.Terminal
