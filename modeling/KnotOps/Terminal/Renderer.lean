import KnotOps.Terminal.Layout

/-! Renderers of tasks, stages, groups and steps.
Every rendering method appends a `Record` of the call to the log of the
terminal, with the renderer it was called on and the data it renders; in plain
mode the records are the lines written, in interactive mode they are what the
bars are set to.  `key` stands for the identity of a renderer object, which the
source has for free.  `Instant::now()` takes the next reading of an arbitrary
clock. -/

namespace KnotOps.Terminal

abbrev Instant := Nat
abbrev Duration := Nat

structure TaskStyle where
  prefixTitle : String
  prefixActive : String
  prefixSuccess : String
  prefixFail : String
  prefixSkip : String
  prefixWait : String
  runFrame : String
  divider : String
deriving DecidableEq, Repr

namespace TaskStyle

def modern : TaskStyle where
  prefixTitle := "▶"
  prefixSuccess := "✔ "
  prefixActive := "> "
  prefixFail := "✖ "
  prefixSkip := "↷ "
  prefixWait := "· "
  runFrame := "⠋⠙⠹⠸⠼⠴⠦⠧⠇⠏"
  divider := "─"

def plain : TaskStyle where
  prefixTitle := "[TASK]"
  prefixSuccess := "[SUCCESS]"
  prefixActive := "> "
  prefixFail := "[FAIL]"
  prefixSkip := "[SKIP]"
  prefixWait := "[WAIT]"
  runFrame := "[START]"
  divider := "─"

end TaskStyle

structure ErrorReport where
  message : String
  context : Option String
  solution : Option String
deriving DecidableEq, Repr

def ErrorReport.new (message : String) : ErrorReport :=
  ⟨message, none, none⟩

inductive RenderMode where
  | interactive
  | plain
deriving DecidableEq, Repr

inductive TaskRenderingStrategy where
  | interactive (node : LayoutNode) (inserted : List LayoutNode)
  | plain (ciPrefix : String)
deriving DecidableEq, Repr

structure TaskRenderer where
  key : Nat
  name : String
  strategy : TaskRenderingStrategy
  style : TaskStyle
  indentSpaces : Nat
deriving DecidableEq, Repr

/-- The rendering methods with what they are given; `success` and `fail` carry
the duration they show. -/
inductive Event where
  | title
  | run (msg : Option String)
  | wait (msg : Option String)
  | skip (msg : String)
  | success (msg : String) (elapsed : Duration)
  | fail (elapsed : Duration)
  | errorReport (error : ErrorReport)
  | separator
deriving DecidableEq, Repr

structure Record where
  renderer : TaskRenderer
  event : Event
deriving DecidableEq, Repr

/-- The screen that the renderers share. -/
structure Screen where
  layout : TaskLayout
  log : List Record
  clock : Nat → Instant
  reads : Nat
  renderers : Nat
  /-- The renderers that were set running (`true`), and that were given a terminal record,
  finished or cleared (`false`), in this order. -/
  activity : List (Nat × Bool)

namespace Screen

def new (clock : Nat → Instant) : Screen :=
  ⟨TaskLayout.new none, [], clock, 0, 0, []⟩

def now (w : Screen) : Instant × Screen :=
  (w.clock w.reads, { w with reads := w.reads + 1 })

def record (w : Screen) (renderer : TaskRenderer) (event : Event) : Screen :=
  { w with log := w.log ++ [⟨renderer, event⟩] }

def turn (w : Screen) (renderer : TaskRenderer) (running : Bool) : Screen :=
  { w with activity := w.activity ++ [(renderer.key, running)] }

def onMulti (w : Screen) (f : MultiProgress → MultiProgress) : Screen :=
  { w with layout := { w.layout with multi := f w.layout.multi } }

end Screen

namespace TaskRenderer

def new (name : String) (strategy : TaskRenderingStrategy) (style : TaskStyle)
    (indentSpaces : Nat) (w : Screen) : TaskRenderer × Screen :=
  (⟨w.renderers, name, strategy, style, indentSpaces⟩, { w with renderers := w.renderers + 1 })

/-- A call on the renderer's own bar; plain renderers have none. -/
def onBar (r : TaskRenderer) (call : MultiProgress → LayoutNode → MultiProgress)
    (w : Screen) : Screen :=
  match r.strategy with
  | .interactive node _ => w.onMulti (call · node)
  | .plain _ => w

/-- `start.elapsed()`. -/
def formatDuration (start : Instant) (w : Screen) : Duration × Screen :=
  let (now, w) := w.now
  (now - start, w)

def title (r : TaskRenderer) (w : Screen) : Screen :=
  w.record r .title

def run (r : TaskRenderer) (msg : Option String) (w : Screen) : Screen :=
  r.onBar .enableSteadyTick ((w.record r (.run msg)).turn r true)

def wait (r : TaskRenderer) (msg : Option String) (w : Screen) : Screen :=
  w.record r (.wait msg)

def skip (r : TaskRenderer) (msg : String) (w : Screen) : Screen :=
  r.onBar .finish ((w.record r (.skip msg)).turn r false)

/-- The plain branches of `success` and `fail` format the duration a second
time. -/
def shownDuration (r : TaskRenderer) (start : Instant) (w : Screen) : Duration × Screen :=
  let (first, w) := formatDuration start w
  match r.strategy with
  | .interactive _ _ => (first, w)
  | .plain _ => formatDuration start w

def success (r : TaskRenderer) (msg : String) (start : Instant) (w : Screen) : Screen :=
  let (elapsed, w) := r.shownDuration start w
  r.onBar .finish ((w.record r (.success msg elapsed)).turn r false)

def fail (r : TaskRenderer) (start : Instant) (w : Screen) : Screen :=
  let (elapsed, w) := r.shownDuration start w
  r.onBar .finish ((w.record r (.fail elapsed)).turn r false)

def failInsert (r : TaskRenderer) (error : ErrorReport) (start : Instant) (w : Screen) :
    TaskRenderer × Screen :=
  let w := r.fail start w
  match r.strategy with
  | .interactive node inserted =>
    let (errorBar, layout) := w.layout.insertAfter node
    let w := { w with layout }.record r (.errorReport error)
    ({ r with strategy := .interactive node (inserted ++ [errorBar]) },
      w.onMulti (·.finish errorBar))
  | .plain _ => (r, w.record r (.errorReport error))

def separator (r : TaskRenderer) (w : Screen) : Screen :=
  r.onBar .finish (w.record r .separator)

def finishSilently (r : TaskRenderer) (w : Screen) : Screen :=
  let w := w.turn r false
  match r.strategy with
  | .interactive node inserted => w.onMulti fun m => inserted.foldl .finish (m.finish node)
  | .plain _ => w

/-- `clear` hides the bar and the error reports under it, and hands their nodes
to the caller. -/
def clear (r : TaskRenderer) (w : Screen) : List LayoutNode × TaskRenderer × Screen :=
  let w := w.turn r false
  match r.strategy with
  | .interactive node inserted =>
    (node :: inserted, { r with strategy := .interactive node [] },
      w.onMulti fun m => inserted.foldl .finishAndClear (m.finishAndClear node))
  | .plain _ => ([], r, w)

end TaskRenderer

end KnotOps.Terminal
