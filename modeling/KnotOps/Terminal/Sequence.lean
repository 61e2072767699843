import KnotOps.Terminal.Builder

/-! Task sequences: the controller over a task whose stages run one after
another, and its builder, which makes up the stage ids.  `none` is a panic: an
unwrap of the builder, or the slice of `skip_stages` out of bounds. -/

namespace KnotOps.Terminal

structure TaskSequence where
  inner : Task
  currentStage : Nat
  allIds : List String
deriving DecidableEq

namespace TaskSequence

def activateCurrentStage (s : TaskSequence) (w : Screen) : TaskSequence × Screen :=
  match s.allIds[s.currentStage]? with
  | some id =>
    let (_, inner, w) := s.inner.runById id none w
    ({ s with inner }, w)
  | none => (s, w)

def new (task : Task) (autostart : Bool) (w : Screen) : TaskSequence × Screen :=
  let sequence : TaskSequence := ⟨task, 0, task.stageIterator.map (·.id)⟩
  if autostart then sequence.activateCurrentStage w else (sequence, w)

def advance (s : TaskSequence) (w : Screen) : TaskSequence × Screen :=
  let s := { s with currentStage := s.currentStage + 1 }
  if s.currentStage < s.allIds.length then s.activateCurrentStage w
  else
    let (inner, w) := s.inner.setCompleted "success" w
    ({ s with inner }, w)

def ok (s : TaskSequence) (resultMsg : String) (w : Screen) : TaskSequence × Screen :=
  match s.allIds[s.currentStage]? with
  | some id =>
    let (_, inner, w) := s.inner.okById id resultMsg w
    { s with inner }.advance w
  | none => (s, w)

def skip (s : TaskSequence) (resultMsg : String) (w : Screen) : TaskSequence × Screen :=
  match s.allIds[s.currentStage]? with
  | some id =>
    let (_, inner, w) := s.inner.skipById id resultMsg w
    { s with inner }.advance w
  | none => (s, w)

/-- `&self.all_ids[start_from..]`. -/
def idsFrom (s : TaskSequence) (startFrom : Nat) : Option (List String) :=
  if startFrom ≤ s.allIds.length then some (s.allIds.drop startFrom) else none

def skipStages (s : TaskSequence) (startFrom : Nat) (msg : String) (w : Screen) :
    Option (TaskSequence × Screen) := do
  let ids ← s.idsFrom startFrom
  let (inner, w) := Task.forIds (fun t id w => t.skipById id msg w) ids s.inner w
  some ({ s with inner, currentStage := s.allIds.length }, w)

def fail (s : TaskSequence) (report : ErrorReport) (w : Screen) :
    Option (TaskSequence × Screen) :=
  match s.allIds[s.currentStage]? with
  | some id =>
    let (_, inner, w) := s.inner.failById id report w
    let s := { s with inner, currentStage := s.currentStage + 1 }
    if s.currentStage < s.allIds.length then
      s.skipStages s.currentStage "skipped due to previous error" w
    else some (s, w)
  | none => some (s, w)

def finish (s : TaskSequence) (resultMsg : String) (w : Screen) :
    Option (TaskSequence × Screen) := do
  let (s, w) ←
    if s.currentStage < s.allIds.length then s.skipStages s.currentStage "skipped" w
    else some (s, w)
  let (inner, w) := s.inner.setCompleted resultMsg w
  some ({ s with inner }, w)

end TaskSequence

inductive SequenceOp where
  | ok (msg : String)
  | skip (msg : String)
  | fail (report : ErrorReport)
  | finish (msg : String)
deriving DecidableEq, Repr

def TaskSequence.step (s : TaskSequence × Screen) : SequenceOp → Option (TaskSequence × Screen)
  | .ok msg => some (s.1.ok msg s.2)
  | .skip msg => some (s.1.skip msg s.2)
  | .fail report => s.1.fail report s.2
  | .finish msg => s.1.finish msg s.2

structure TaskSequenceBuilder where
  inner : TaskBuilder
  stageCounter : Nat
deriving DecidableEq, Repr

namespace TaskSequenceBuilder

def new (builder : TaskBuilder) : TaskSequenceBuilder :=
  ⟨builder, 0⟩

/-- `format!("stage_{}", id)`. -/
def stageId (id : Nat) : String := "stage_" ++ toString id

def withStage (b : TaskSequenceBuilder) (stageName : String) : TaskSequenceBuilder :=
  ⟨b.inner.withStage (stageId b.stageCounter) stageName false, b.stageCounter + 1⟩

def withGroup (b : TaskSequenceBuilder) (header : Option String) : TaskSequenceBuilder :=
  { b with inner := b.inner.withGroup header }

def start (b : TaskSequenceBuilder) (autoIndent : Bool) (w : Screen) :
    Option (TaskSequence × Screen) := do
  let (task, w) ← b.inner.start autoIndent w
  some (TaskSequence.new task true w)

def build (b : TaskSequenceBuilder) (autoIndent : Bool) (w : Screen) :
    Option (TaskSequence × Screen) := do
  let (task, w) ← b.inner.start autoIndent w
  some (TaskSequence.new task false w)

/-- `start` with `true`, `build` with `false`. -/
def launch (b : TaskSequenceBuilder) (autostart autoIndent : Bool) (w : Screen) :
    Option (TaskSequence × Screen) :=
  if autostart then b.start autoIndent w else b.build autoIndent w

theorem launch_eq (b : TaskSequenceBuilder) (autostart autoIndent : Bool) (w : Screen) :
    b.launch autostart autoIndent w =
      (b.inner.start autoIndent w).map fun (task, w) => TaskSequence.new task autostart w := by
  cases h : b.inner.start autoIndent w <;> cases autostart <;> simp [launch, start, build, h]

end TaskSequenceBuilder

/-- One call of a builder chain. -/
inductive SequenceStep where
  | stage (name : String)
  | group (header : Option String)
deriving DecidableEq, Repr

def TaskSequenceBuilder.chain (b : TaskSequenceBuilder) (steps : List SequenceStep) :
    TaskSequenceBuilder :=
  steps.foldl (fun b step => match step with
    | .stage name => b.withStage name
    | .group header => b.withGroup header) b

end KnotOps.Terminal
