import KnotOps.Terminal.Sequence

/-! Steps, the engine, and sessions.
A session is a single-threaded program that creates elements on one interactive
layout and calls their operations in any order.  Operations that take the
element by value leave a slot that is no longer owned; `none` is a call that the
program cannot make, or a panic. -/

namespace KnotOps.Terminal

structure Step where
  renderer : TaskRenderer
  startTime : Option Instant
deriving DecidableEq, Repr

namespace Step

def new (renderer : TaskRenderer) (w : Screen) : Step × Screen :=
  (⟨renderer, none⟩, renderer.wait none w)

/-- `start.unwrap_or_else(Instant::now)`. -/
def time (s : Step) (w : Screen) : Instant × Screen :=
  match s.startTime with
  | some start => (start, w)
  | none => w.now

def performRun (s : Step) (status : Option String) (w : Screen) : Step × Screen :=
  let (now, w) := (s.renderer.run status w).now
  ({ s with startTime := some now }, w)

def performOk (s : Step) (status : String) (w : Screen) : Screen :=
  let (start, w) := s.time w
  s.renderer.success status start w

def performFail (s : Step) (error : ErrorReport) (w : Screen) : Step × Screen :=
  let (start, w) := s.time w
  let (renderer, w) := s.renderer.failInsert error start w
  ({ s with renderer }, w)

def performSkip (s : Step) (status : String) (w : Screen) : Screen :=
  s.renderer.skip status w

end Step

structure TaskEngine where
  style : TaskStyle
  mode : RenderMode
deriving DecidableEq, Repr

namespace TaskEngine

def space (e : TaskEngine) (w : Screen) : Option LayoutNode × Screen :=
  match e.mode with
  | .interactive =>
    let (spacer, layout) := w.layout.insert
    (some spacer, { w with layout }.onMulti (·.finish spacer))
  | .plain => (none, w)

def step (e : TaskEngine) (name : String) (autoRun : Bool) (w : Screen) : Step × Screen :=
  let (strategy, w) : TaskRenderingStrategy × Screen := match e.mode with
    | .interactive =>
      let (node, layout) := w.layout.insert
      (.interactive node [], { w with layout })
    | .plain => (.plain "", w)
  let (renderer, w) := TaskRenderer.new name strategy e.style 0 w
  let (step, w) := Step.new renderer w
  if autoRun then step.performRun none w else (step, w)

def task (e : TaskEngine) (name : String) : TaskBuilder :=
  TaskBuilder.new name e.style e.mode

def sequence (e : TaskEngine) (name : String) : TaskSequenceBuilder :=
  TaskSequenceBuilder.new (e.task name)

end TaskEngine

inductive Element where
  | task (t : Task)
  | sequence (s : TaskSequence)
  | step (s : Step)
  | spacer (node : LayoutNode)
deriving DecidableEq

structure Slot where
  element : Element
  owned : Bool
deriving DecidableEq

structure Session where
  slots : List Slot
  screen : Screen

inductive StepEnd where
  | ok (status : String)
  | fail (error : ErrorReport)
  | skip (status : String)
deriving DecidableEq, Repr

inductive SessionOp where
  | space
  | newStep (style : TaskStyle) (name : String) (autoRun : Bool)
  | newTask (style : TaskStyle) (name : String) (steps : List BuilderStep) (autoIndent : Bool)
  | newSequence (style : TaskStyle) (name : String) (steps : List SequenceStep)
      (autostart autoIndent : Bool)
  | task (i : Nat) (op : TaskOp)
  | endTask (i : Nat) (e : TaskEnd)
  | sequence (i : Nat) (op : SequenceOp)
  | runStep (i : Nat) (status : Option String)
  | endStep (i : Nat) (e : StepEnd)

def SessionOp.creates : SessionOp → Bool
  | space | newStep .. | newTask .. | newSequence .. => true
  | _ => false

namespace Session

def new (clock : Nat → Instant) : Session :=
  ⟨[], Screen.new clock⟩

def push (s : Session) (element : Element) (screen : Screen) : Session :=
  ⟨s.slots ++ [⟨element, true⟩], screen⟩

def set (s : Session) (i : Nat) (element : Element) (owned : Bool) (screen : Screen) : Session :=
  ⟨s.slots.set i ⟨element, owned⟩, screen⟩

def get? (s : Session) (i : Nat) : Option Element :=
  match s.slots[i]? with
  | some ⟨element, true⟩ => some element
  | _ => none

def create (s : Session) : SessionOp → Option Session
  | .space =>
    match (TaskEngine.mk .modern .interactive).space s.screen with
    | (some node, w) => some (s.push (.spacer node) w)
    | (none, _) => none
  | .newStep style name autoRun =>
    let (step, w) := (TaskEngine.mk style .interactive).step name autoRun s.screen
    some (s.push (.step step) w)
  | .newTask style name steps autoIndent => do
    let builder := (TaskEngine.mk style .interactive).task name
    let (task, w) ← { builder with steps }.start autoIndent s.screen
    some (s.push (.task task) w)
  | .newSequence style name steps autostart autoIndent => do
    let builder := ((TaskEngine.mk style .interactive).sequence name).chain steps
    let (sequence, w) ← builder.launch autostart autoIndent s.screen
    some (s.push (.sequence sequence) w)
  | _ => none

def step (s : Session) (op : SessionOp) : Option Session :=
  match op with
  | .task i op =>
    match s.get? i with
    | some (.task t) =>
      let (t, w) := Task.step (t, s.screen) op
      some (s.set i (.task t) true w)
    | _ => none
  | .endTask i e =>
    match s.get? i with
    | some (.task t) =>
      let (t, w) := Task.consume (t, s.screen) e
      some (s.set i (.task t) false w)
    | _ => none
  | .sequence i op =>
    match s.get? i with
    | some (.sequence q) => do
      let (q, w) ← TaskSequence.step (q, s.screen) op
      some (s.set i (.sequence q) true w)
    | _ => none
  | .runStep i status =>
    match s.get? i with
    | some (.step p) =>
      let (p, w) := p.performRun status s.screen
      some (s.set i (.step p) true w)
    | _ => none
  | .endStep i e =>
    match s.get? i with
    | some (.step p) =>
      match e with
      | .ok status => some (s.set i (.step p) false (p.performOk status s.screen))
      | .fail error =>
        let (p, w) := p.performFail error s.screen
        some (s.set i (.step p) false w)
      | .skip status => some (s.set i (.step p) false (p.performSkip status s.screen))
    | _ => none
  | op => s.create op

end Session

inductive Element.Does (w : Screen) : SessionOp → Element → Element → Bool → Screen → Prop
  | task (i : Nat) (t : Task) (op : TaskOp) :
    Does w (.task i op) (.task t) (.task (Task.step (t, w) op).1) true (Task.step (t, w) op).2
  | endTask (i : Nat) (t : Task) (e : TaskEnd) :
    Does w (.endTask i e) (.task t) (.task (Task.consume (t, w) e).1) false
      (Task.consume (t, w) e).2
  | sequence (i : Nat) {q q' : TaskSequence} {op : SequenceOp} {w' : Screen}
      (moved : TaskSequence.step (q, w) op = some (q', w')) :
    Does w (.sequence i op) (.sequence q) (.sequence q') true w'
  | runStep (i : Nat) (p : Step) (status : Option String) :
    Does w (.runStep i status) (.step p) (.step (p.performRun status w).1) true
      (p.performRun status w).2
  | endStepOk (i : Nat) (p : Step) (status : String) :
    Does w (.endStep i (.ok status)) (.step p) (.step p) false (p.performOk status w)
  | endStepFail (i : Nat) (p : Step) (error : ErrorReport) :
    Does w (.endStep i (.fail error)) (.step p) (.step (p.performFail error w).1) false
      (p.performFail error w).2
  | endStepSkip (i : Nat) (p : Step) (status : String) :
    Does w (.endStep i (.skip status)) (.step p) (.step p) false (p.performSkip status w)

def SessionOp.slot? : SessionOp → Option Nat
  | task i _ | endTask i _ | sequence i _ | runStep i _ | endStep i _ => some i
  | space | newStep .. | newTask .. | newSequence .. => none

theorem Session.step_cases {s next : Session} {op : SessionOp} (call : op.creates = false)
    (taken : s.step op = some next) :
    ∃ i element element' owned w, op.slot? = some i ∧ s.get? i = some element ∧
      Element.Does s.screen op element element' owned w ∧ next = s.set i element' owned w := by
  cases op with
  | task i op =>
    simp only [step] at taken
    split at taken
    · rename_i t found
      exact ⟨i, _, _, _, _, rfl, found, .task i t op, (Option.some.inj taken).symm⟩
    · cases taken
  | endTask i e =>
    simp only [step] at taken
    split at taken
    · rename_i t found
      exact ⟨i, _, _, _, _, rfl, found, .endTask i t e, (Option.some.inj taken).symm⟩
    · cases taken
  | sequence i op =>
    simp only [step] at taken
    split at taken
    · rename_i q found
      obtain ⟨⟨q', w⟩, moved, eq⟩ := Option.bind_eq_some_iff.mp taken
      exact ⟨i, _, _, _, _, rfl, found, .sequence i moved, (Option.some.inj eq).symm⟩
    · cases taken
  | runStep i status =>
    simp only [step] at taken
    split at taken
    · rename_i p found
      exact ⟨i, _, _, _, _, rfl, found, .runStep i p status, (Option.some.inj taken).symm⟩
    · cases taken
  | endStep i e =>
    simp only [step] at taken
    split at taken
    · rename_i p found
      cases e with
      | ok status =>
        exact ⟨i, _, _, _, _, rfl, found, .endStepOk i p status, (Option.some.inj taken).symm⟩
      | fail error =>
        exact ⟨i, _, _, _, _, rfl, found, .endStepFail i p error, (Option.some.inj taken).symm⟩
      | skip status =>
        exact ⟨i, _, _, _, _, rfl, found, .endStepSkip i p status, (Option.some.inj taken).symm⟩
    · cases taken
  | space | newStep | newTask | newSequence => cases call

end KnotOps.Terminal
