import KnotOps.Terminal.Task

/-! Task builders.
`insertion_point` is present in interactive mode only, and the source unwraps
it there; `none` as the result of a function below is the panic of such an
unwrap. -/

namespace KnotOps.Terminal

inductive BuilderStep where
  | stage (id name : String) (autoRun : Bool)
  | group (header : Option String)
deriving DecidableEq, Repr

structure TaskBuilder where
  name : String
  steps : List BuilderStep
  style : TaskStyle
  mode : RenderMode
deriving DecidableEq, Repr

structure Building where
  entries : List TaskEntry
  autostart : List String
  insertionPoint : Option LayoutNode
  screen : Screen

namespace TaskBuilder

def new (name : String) (style : TaskStyle) (mode : RenderMode) : TaskBuilder :=
  ⟨name, [], style, mode⟩

def withStage (b : TaskBuilder) (id stageName : String) (autoRun : Bool) : TaskBuilder :=
  { b with steps := b.steps ++ [.stage id stageName autoRun] }

def withGroup (b : TaskBuilder) (header : Option String) : TaskBuilder :=
  { b with steps := b.steps ++ [.group header] }

def createHeadRenderer (b : TaskBuilder) (w : Screen) :
    TaskRenderer × Option LayoutNode × Screen :=
  match b.mode with
  | .plain =>
    let (r, w) := TaskRenderer.new b.name (.plain "") b.style 0 w
    (r, none, w)
  | .interactive =>
    let (headBar, layout) := w.layout.insert
    let (r, w) := TaskRenderer.new b.name (.interactive headBar []) b.style 0 { w with layout }
    (r, some headBar, w)

def createChildRenderer (b : TaskBuilder) (childName : String)
    (insertionPoint : Option LayoutNode) (indentSpaces : Nat) (w : Screen) :
    Option (TaskRenderer × Option LayoutNode × Screen) :=
  match b.mode, insertionPoint with
  | .plain, point =>
    let (r, w) :=
      TaskRenderer.new childName (.plain ("[" ++ b.name ++ "]")) b.style indentSpaces w
    some (r, point, w)
  | .interactive, some point =>
    let (bar, layout) := w.layout.insertAfter point
    let (r, w) :=
      TaskRenderer.new childName (.interactive bar []) b.style indentSpaces { w with layout }
    some (r, some bar, w)
  | .interactive, none => none

def childIndentSpaces : Nat := 3

def addStep (b : TaskBuilder) (s : Building) : BuilderStep → Option Building
  | .stage id name autoRun => do
    let (stageRenderer, point, w) ←
      b.createChildRenderer name s.insertionPoint childIndentSpaces s.screen
    some
      { entries := s.entries ++ [.stage (Stage.new id stageRenderer)]
        autostart := if autoRun then s.autostart ++ [id] else s.autostart
        insertionPoint := point
        screen := stageRenderer.wait none w }
  | .group header => do
    let (groupRenderer, point, w) ←
      b.createChildRenderer (header.getD "") s.insertionPoint childIndentSpaces s.screen
    some
      { s with
        entries := s.entries ++ [.extra groupRenderer]
        insertionPoint := point
        screen := groupRenderer.separator w }

def applyAutoIndent (b : TaskBuilder) (s : Building) : Option Building :=
  match b.mode, s.insertionPoint with
  | .plain, _ => some s
  | .interactive, some point =>
    let (spacer, layout) := s.screen.layout.insertAfter point
    let (r, w) :=
      TaskRenderer.new "" (.interactive spacer []) b.style childIndentSpaces
        { s.screen with layout }
    some
      { s with
        entries := s.entries ++ [.extra r]
        insertionPoint := some spacer
        screen := w.onMulti (·.finish spacer) }
  | .interactive, none => none

def build (b : TaskBuilder) (autoIndent : Bool) (insertionPoint : Option LayoutNode)
    (w : Screen) : Option Building := do
  let s ← b.steps.foldlM b.addStep ⟨[], [], insertionPoint, w⟩
  if autoIndent then b.applyAutoIndent s else some s

def placeAnchor (b : TaskBuilder) (insertionPoint : Option LayoutNode) (w : Screen) : Screen :=
  match b.mode, insertionPoint with
  | .interactive, some point => { w with layout := w.layout.setAnchor point }
  | _, _ => w

def start (b : TaskBuilder) (autoIndent : Bool) (w : Screen) : Option (Task × Screen) := do
  let (headRenderer, insertionPoint, w) := b.createHeadRenderer w
  let s ← b.build autoIndent insertionPoint (headRenderer.title w)
  let (task, w) :=
    Task.new headRenderer s.entries (b.placeAnchor s.insertionPoint s.screen)
  some (Task.forIds (fun t id w => t.runById id none w) s.autostart task w)

end TaskBuilder

end KnotOps.Terminal
