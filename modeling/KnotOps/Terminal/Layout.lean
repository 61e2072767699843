import KnotOps.Splice

/-! The layout manager of interactive rendering.
Progress bars live in indicatif's `MultiProgress`; what is used of it is the
documented behaviour of `add` and `insert_after` on the display order and the
fact that `finish_and_clear` hides a bar where it stands.  A bar is named by the
`LayoutNode` made for it, and every call on a bar is kept in `calls`, from which
the hidden, finished and ticking bars are read off.
`node_counter` is a machine word in the source; the bars it numbers are all held
by the `MultiProgress`, so memory runs out before the counter wraps. -/

namespace KnotOps.Terminal

open Splice

structure LayoutNode where
  id : Nat
deriving DecidableEq, Repr

inductive MultiCall where
  | add (bar : LayoutNode)
  | insertAfter (target bar : LayoutNode)
  | enableSteadyTick (bar : LayoutNode)
  | finish (bar : LayoutNode)
  | finishAndClear (bar : LayoutNode)
deriving DecidableEq, Repr

namespace MultiCall

def inserted : MultiCall → Option LayoutNode
  | add bar | insertAfter _ bar => some bar
  | _ => none

def cleared : MultiCall → Option LayoutNode
  | finishAndClear bar => some bar
  | _ => none

def Quiet (c : MultiCall) : Prop :=
  c.inserted = none ∧ c.cleared = none

end MultiCall

structure MultiProgress where
  ordering : List LayoutNode
  calls : List MultiCall
deriving DecidableEq, Repr

namespace MultiProgress

def add (m : MultiProgress) (bar : LayoutNode) : MultiProgress :=
  ⟨m.ordering ++ [bar], m.calls ++ [.add bar]⟩

def insertAfter (m : MultiProgress) (target bar : LayoutNode) : MultiProgress :=
  ⟨spliceAfter target bar m.ordering, m.calls ++ [.insertAfter target bar]⟩

def enableSteadyTick (m : MultiProgress) (bar : LayoutNode) : MultiProgress :=
  { m with calls := m.calls ++ [.enableSteadyTick bar] }

/-- `finish` and `finish_with_message`; the message is kept with the records of
the renderers. -/
def finish (m : MultiProgress) (bar : LayoutNode) : MultiProgress :=
  { m with calls := m.calls ++ [.finish bar] }

def finishAndClear (m : MultiProgress) (bar : LayoutNode) : MultiProgress :=
  { m with calls := m.calls ++ [.finishAndClear bar] }

def inserted (m : MultiProgress) : List LayoutNode :=
  m.calls.filterMap MultiCall.inserted

def cleared (m : MultiProgress) : List LayoutNode :=
  m.calls.filterMap MultiCall.cleared

/-- The bars a terminal shows, from top to bottom. -/
def visible (m : MultiProgress) : List LayoutNode :=
  m.ordering.filter (· ∉ m.cleared)

@[simp] theorem cleared_add (m : MultiProgress) (bar : LayoutNode) :
    (m.add bar).cleared = m.cleared := by
  simp [add, cleared, MultiCall.cleared]

@[simp] theorem cleared_insertAfter (m : MultiProgress) (target bar : LayoutNode) :
    (m.insertAfter target bar).cleared = m.cleared := by
  simp [insertAfter, cleared, MultiCall.cleared]

end MultiProgress

structure TaskLayout where
  multi : MultiProgress
  anchor : Option LayoutNode
  nodeCounter : Nat
deriving DecidableEq, Repr

namespace TaskLayout

def new (anchor : Option LayoutNode) : TaskLayout :=
  ⟨⟨[], []⟩, anchor, 0⟩

def nextId (l : TaskLayout) : Nat := l.nodeCounter

def insert (l : TaskLayout) : LayoutNode × TaskLayout :=
  let node : LayoutNode := ⟨l.nextId⟩
  let multi := match l.anchor with
    | some anchorBar => l.multi.insertAfter anchorBar node
    | none => l.multi.add node
  (node, ⟨multi, some node, l.nodeCounter + 1⟩)

def insertAfter (l : TaskLayout) (target : LayoutNode) : LayoutNode × TaskLayout :=
  let node : LayoutNode := ⟨l.nextId⟩
  let anchor := if l.anchor = some target then some node else l.anchor
  (node, ⟨l.multi.insertAfter target node, anchor, l.nodeCounter + 1⟩)

def setAnchor (l : TaskLayout) (node : LayoutNode) : TaskLayout :=
  { l with anchor := some node }

def updateAnchorIfIn (l : TaskLayout) (nodes : List LayoutNode) (fallback : LayoutNode) :
    TaskLayout :=
  match l.anchor with
  | some current => if current ∈ nodes then l.setAnchor fallback else l
  | none => l

def visible (l : TaskLayout) : List LayoutNode := l.multi.visible

end TaskLayout

end KnotOps.Terminal
