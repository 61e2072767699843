import KnotOps.Terminal.Engine
import Mathlib.Logic.Relation

/-! The bars of one element, and the moves its operations make.
A block is what an element has on the layout: the bar of its head, the bars of
its entries, and the error reports inserted under each.  `Move` lists all that
the operations of an element do to its block and the layout; the lemmas below
show each operation to be a chain of moves. -/

namespace KnotOps.Terminal

namespace TaskRenderingStrategy

def nodes : TaskRenderingStrategy → List LayoutNode
  | interactive node inserted => node :: inserted
  | plain _ => []

/-- Every report is inserted right under the bar, above the older ones. -/
def display : TaskRenderingStrategy → List LayoutNode
  | interactive node inserted => node :: inserted.reverse
  | plain _ => []

end TaskRenderingStrategy

structure Block where
  head : TaskRenderingStrategy
  entries : List TaskRenderingStrategy
deriving DecidableEq

namespace Block

def entryNodes (b : Block) : List LayoutNode :=
  b.entries.flatMap TaskRenderingStrategy.nodes

def nodes (b : Block) : List LayoutNode :=
  b.head.nodes ++ b.entryNodes

def display (b : Block) : List LayoutNode :=
  b.head.display ++ b.entries.flatMap TaskRenderingStrategy.display

theorem mem_display_strategy {s : TaskRenderingStrategy} {n : LayoutNode} :
    n ∈ s.display ↔ n ∈ s.nodes := by
  cases s <;> simp [TaskRenderingStrategy.display, TaskRenderingStrategy.nodes]

theorem mem_display {b : Block} {n : LayoutNode} : n ∈ b.display ↔ n ∈ b.nodes := by
  simp only [display, nodes, entryNodes, List.mem_append, List.mem_flatMap, mem_display_strategy]

theorem display_append (head entry : TaskRenderingStrategy)
    (entries : List TaskRenderingStrategy) :
    (Block.mk head (entries ++ [entry])).display =
      (Block.mk head entries).display ++ entry.display := by
  simp [display]

end Block

namespace TaskLayout

def calling (l : TaskLayout) (calls : List MultiCall) : TaskLayout :=
  { l with multi := { l.multi with calls := l.multi.calls ++ calls } }

def clearing (l : TaskLayout) (nodes : List LayoutNode) : TaskLayout :=
  l.calling (nodes.map .finishAndClear)

theorem calling_calling (l : TaskLayout) (first second : List MultiCall) :
    (l.calling first).calling second = l.calling (first ++ second) := by
  simp [calling]

theorem clearing_clearing (l : TaskLayout) (first second : List LayoutNode) :
    (l.clearing first).clearing second = l.clearing (first ++ second) := by
  simp [clearing, calling_calling]

def Quietly (l l' : TaskLayout) : Prop :=
  ∃ calls : List MultiCall, (∀ c ∈ calls, c.Quiet) ∧ l' = l.calling calls

theorem Quietly.refl (l : TaskLayout) : l.Quietly l :=
  ⟨[], by simp, by simp [calling]⟩

theorem Quietly.trans {l l' l'' : TaskLayout} (first : l.Quietly l') (second : l'.Quietly l'') :
    l.Quietly l'' := by
  obtain ⟨calls, quiet, rfl⟩ := first
  obtain ⟨more, quietMore, rfl⟩ := second
  refine ⟨calls ++ more, ?_, calling_calling l calls more⟩
  intro c member
  rcases List.mem_append.mp member with old | new
  · exact quiet c old
  · exact quietMore c new

theorem quietly_finish (l : TaskLayout) (bar : LayoutNode) :
    l.Quietly { l with multi := l.multi.finish bar } :=
  ⟨[.finish bar], by simp [MultiCall.Quiet, MultiCall.inserted, MultiCall.cleared], rfl⟩

theorem quietly_enableSteadyTick (l : TaskLayout) (bar : LayoutNode) :
    l.Quietly { l with multi := l.multi.enableSteadyTick bar } :=
  ⟨[.enableSteadyTick bar], by simp [MultiCall.Quiet, MultiCall.inserted, MultiCall.cleared], rfl⟩

theorem quietly_finish_all (l : TaskLayout) (bars : List LayoutNode) :
    l.Quietly { l with multi := bars.foldl .finish l.multi } := by
  induction bars generalizing l with
  | nil => exact .refl l
  | cons bar bars ih => exact (l.quietly_finish bar).trans (ih _)

end TaskLayout

/-- What an operation of an element can do to its block and the layout. -/
inductive Move : Block × TaskLayout → Block × TaskLayout → Prop
  | quiet {b : Block} {l l' : TaskLayout} (quietly : l.Quietly l') : Move (b, l) (b, l')
  | headReport {b : Block} {l : TaskLayout} {node : LayoutNode}
      (head : b.head = .interactive node []) :
      Move (b, l) (⟨.interactive node [(l.insertAfter node).1], b.entries⟩, (l.insertAfter node).2)
  | entryReport {b : Block} {l : TaskLayout} {node : LayoutNode} {inserted : List LayoutNode}
      {before after : List TaskRenderingStrategy}
      (entries : b.entries = before ++ .interactive node inserted :: after) :
      Move (b, l)
        (⟨b.head, before ++ .interactive node (inserted ++ [(l.insertAfter node).1]) :: after⟩,
          (l.insertAfter node).2)
  | append {b : Block} {l : TaskLayout} {head node : LayoutNode}
      (empty : b.head = .interactive head []) (last : b.display.getLast? = some node) :
      Move (b, l)
        (⟨b.head, b.entries ++ [.interactive (l.insertAfter node).1 []]⟩, (l.insertAfter node).2)
  | clear {b : Block} {l : TaskLayout} {node : LayoutNode} {inserted : List LayoutNode}
      (head : b.head = .interactive node inserted) :
      Move (b, l)
        (⟨b.head, []⟩, (l.clearing b.entryNodes).updateAnchorIfIn b.entryNodes node)

abbrev Moves : Block × TaskLayout → Block × TaskLayout → Prop :=
  Relation.ReflTransGen Move

theorem Moves.quiet {b : Block} {l l' : TaskLayout} (quietly : l.Quietly l') :
    Moves (b, l) (b, l') :=
  .single (.quiet quietly)

namespace TaskRenderer

variable (r : TaskRenderer) (w : Screen)

theorem layout_shownDuration (start : Instant) :
    (r.shownDuration start w).2.layout = w.layout := by
  cases h : r.strategy <;> simp [shownDuration, formatDuration, Screen.now, h]

theorem quietly_onBar_finish : w.layout.Quietly (r.onBar .finish w).layout := by
  unfold onBar
  split
  · exact w.layout.quietly_finish _
  · exact .refl _

theorem quietly_run (msg : Option String) : w.layout.Quietly (r.run msg w).layout := by
  unfold run onBar
  split
  · exact w.layout.quietly_enableSteadyTick _
  · exact .refl _

theorem quietly_skip (msg : String) : w.layout.Quietly (r.skip msg w).layout :=
  r.quietly_onBar_finish ((w.record r (.skip msg)).turn r false)

theorem quietly_separator : w.layout.Quietly (r.separator w).layout :=
  r.quietly_onBar_finish (w.record r .separator)

theorem quietly_success (msg : String) (start : Instant) :
    w.layout.Quietly (r.success msg start w).layout := by
  have finished := r.quietly_onBar_finish (((r.shownDuration start w).2.record r
    (.success msg (r.shownDuration start w).1)).turn r false)
  change TaskLayout.Quietly (r.shownDuration start w).2.layout _ at finished
  rwa [layout_shownDuration] at finished

theorem quietly_fail (start : Instant) : w.layout.Quietly (r.fail start w).layout := by
  have finished := r.quietly_onBar_finish (((r.shownDuration start w).2.record r
    (.fail (r.shownDuration start w).1)).turn r false)
  change TaskLayout.Quietly (r.shownDuration start w).2.layout _ at finished
  rwa [layout_shownDuration] at finished

theorem quietly_finishSilently : w.layout.Quietly (r.finishSilently w).layout := by
  unfold finishSilently
  split
  · rename_i node inserted _
    exact (w.layout.quietly_finish node).trans (TaskLayout.quietly_finish_all _ inserted)
  · exact .refl _

theorem failInsert_of_interactive {node : LayoutNode} {inserted : List LayoutNode}
    (h : r.strategy = .interactive node inserted) (error : ErrorReport) (start : Instant) :
    ∃ l, w.layout.Quietly l ∧
      (r.failInsert error start w).1 =
        { r with strategy := .interactive node (inserted ++ [(l.insertAfter node).1]) } ∧
      (l.insertAfter node).2.Quietly (r.failInsert error start w).2.layout := by
  refine ⟨(r.fail start w).layout, r.quietly_fail w start, ?_⟩
  simp only [failInsert, h]
  exact ⟨trivial, TaskLayout.quietly_finish _ _⟩

theorem failInsert_of_plain {ciPrefix : String} (h : r.strategy = .plain ciPrefix)
    (error : ErrorReport) (start : Instant) :
    (r.failInsert error start w).1 = r ∧
      w.layout.Quietly (r.failInsert error start w).2.layout := by
  simp only [failInsert, h]
  exact ⟨trivial, r.quietly_fail w start⟩

theorem clear_eq :
    (r.clear w).1 = r.strategy.nodes ∧
      (r.clear w).2.2.layout = w.layout.clearing r.strategy.nodes := by
  have calls (m : MultiProgress) (bars : List LayoutNode) :
      bars.foldl MultiProgress.finishAndClear m =
        { m with calls := m.calls ++ bars.map .finishAndClear } := by
    induction bars generalizing m with
    | nil => simp
    | cons bar bars ih => simp [ih, MultiProgress.finishAndClear]
  cases h : r.strategy with
  | interactive node inserted =>
    simp only [clear, h]
    refine ⟨rfl, ?_⟩
    simp [Screen.onMulti, Screen.turn, calls, MultiProgress.finishAndClear, TaskLayout.clearing,
      TaskLayout.calling, TaskRenderingStrategy.nodes]
  | plain ciPrefix =>
    simp [clear, h, Screen.turn, TaskRenderingStrategy.nodes, TaskLayout.clearing,
      TaskLayout.calling]

end TaskRenderer

def Task.block (t : Task) : Block :=
  ⟨t.renderer.strategy, t.entries.map (·.renderer.strategy)⟩

theorem clearEntries_eq (entries : List TaskEntry) (w : Screen) :
    (clearEntries entries w).1 =
        (entries.map (·.renderer.strategy)).flatMap TaskRenderingStrategy.nodes ∧
      (clearEntries entries w).2.layout =
        w.layout.clearing
          ((entries.map (·.renderer.strategy)).flatMap TaskRenderingStrategy.nodes) := by
  induction entries generalizing w with
  | nil => exact ⟨rfl, by simp [clearEntries, TaskLayout.clearing, TaskLayout.calling]⟩
  | cons entry rest ih =>
    obtain ⟨nodes, layout⟩ := entry.renderer.clear_eq w
    obtain ⟨restNodes, restLayout⟩ := ih (entry.renderer.clear w).2.2
    constructor
    · simp only [clearEntries, nodes, restNodes, List.map_cons, List.flatMap_cons]
    · simp only [clearEntries, restLayout, layout, TaskLayout.clearing_clearing, List.map_cons,
        List.flatMap_cons]

namespace Stage

variable (s : Stage) (w : Screen)

theorem layout_start : (s.start w).2.layout = w.layout := by
  unfold start
  split <;> rfl

theorem quietly_success (msg : String) : w.layout.Quietly (s.success msg w).layout := by
  have shown := s.renderer.quietly_success (s.start w).2 msg (s.start w).1
  rwa [layout_start] at shown

theorem moves_fail (error : ErrorReport) {b : Block} {before after : List TaskRenderingStrategy}
    (entries : b.entries = before ++ s.renderer.strategy :: after) :
    Moves (b, w.layout)
      (⟨b.head, before ++ (s.fail error w).1.renderer.strategy :: after⟩,
        (s.fail error w).2.layout) := by
  have same := s.layout_start w
  cases strategy : s.renderer.strategy with
  | interactive node inserted =>
    obtain ⟨l, first, renderer, last⟩ :=
      s.renderer.failInsert_of_interactive (s.start w).2 strategy error (s.start w).1
    rw [same] at first
    rw [strategy] at entries
    simp only [fail, renderer]
    exact ((Moves.quiet first).tail (.entryReport entries)).tail (.quiet last)
  | plain ciPrefix =>
    obtain ⟨renderer, quietly⟩ :=
      s.renderer.failInsert_of_plain (s.start w).2 strategy error (s.start w).1
    rw [same] at quietly
    simp only [fail, renderer, ← entries]
    exact Moves.quiet quietly

end Stage

namespace Task

variable {t : Task} {w : Screen} {node : LayoutNode} {inserted : List LayoutNode}

structure Steady (s s' : Task × Screen) : Prop where
  moves : Moves (s.1.block, s.2.layout) (s'.1.block, s'.2.layout)
  renderer : s'.1.renderer = s.1.renderer

theorem Steady.refl (s : Task × Screen) : Steady s s :=
  ⟨.refl, rfl⟩

theorem Steady.trans {s s' s'' : Task × Screen} (first : Steady s s') (second : Steady s' s'') :
    Steady s s'' :=
  ⟨first.moves.trans second.moves, second.renderer.trans first.renderer⟩

theorem moves_clearChildren (head : t.renderer.strategy = .interactive node inserted) :
    Move (t.block, w.layout)
      ((t.clearChildren w).1.block, (t.clearChildren w).2.layout) := by
  obtain ⟨nodes, layout⟩ := clearEntries_eq t.entries w
  have clear := Move.clear (b := t.block) (l := w.layout) head
  simp only [clearChildren, head, nodes, layout]
  exact clear

theorem steady_setCompleted (head : t.renderer.strategy = .interactive node inserted)
    (msg : String) : Steady (t, w) (t.setCompleted msg w) := by
  unfold setCompleted
  split_ifs
  · exact .refl _
  · refine ⟨?_, rfl⟩
    have shown := t.renderer.quietly_success w msg t.startTime
    have cleared := moves_clearChildren (t := { t with isFinished := true })
      (w := t.renderer.success msg t.startTime w) head
    exact (Moves.quiet shown).tail cleared

theorem quietly_finishChildren : w.layout.Quietly (t.finishChildren w).layout := by
  unfold finishChildren
  generalize t.entries = entries
  induction entries generalizing w with
  | nil => exact .refl _
  | cons entry rest ih => exact (entry.renderer.quietly_finishSilently w).trans ih

theorem steady_setFailedAndFreeze : Steady (t, w) (t.setFailedAndFreeze w) := by
  refine ⟨?_, rfl⟩
  have shown := t.renderer.quietly_fail w t.startTime
  have finished := quietly_finishChildren (t := { t with isFinished := true })
    (w := t.renderer.fail t.startTime w)
  exact Moves.quiet (shown.trans finished)

theorem steady_updateState (head : t.renderer.strategy = .interactive node inserted) :
    Steady (t, w) (t.updateState w).2 := by
  unfold updateState
  split_ifs
  · exact .refl _
  · exact steady_setFailedAndFreeze
  · exact steady_setCompleted head "success"
  · exact .refl _

theorem steady_onStage (head : t.renderer.strategy = .interactive node inserted) (id : String)
    {act : Stage → Screen → Stage × Screen} (finished failed : Finset String → Finset String)
    (moves : ∀ stage (b : Block) before after,
      b.entries = before ++ stage.renderer.strategy :: after →
      Moves (b, w.layout)
        (⟨b.head, before ++ (act stage w).1.renderer.strategy :: after⟩,
          (act stage w).2.layout)) :
    Steady (t, w) (t.onStage id act finished failed w).2 := by
  cases found : t.getStage id with
  | none =>
    simp only [onStage, found]
    exact .refl _
  | some stage =>
    simp only [onStage, found]
    obtain ⟨before, after, split, replaced⟩ := replaceStage_split found
    have touched : Steady (t, w)
        ({ t with
            entries := replaceStage id (act stage w).1 t.entries
            finishedStages := finished t.finishedStages
            failedStages := failed t.failedStages }, (act stage w).2) := by
      refine ⟨?_, rfl⟩
      simp only [block, replaced, List.map_append, List.map_cons]
      apply moves
      simp [split, TaskEntry.renderer]
    exact touched.trans (steady_updateState head)

theorem steady_quiet (head : t.renderer.strategy = .interactive node inserted) (id : String)
    {act : Stage → Screen → Stage × Screen} (finished failed : Finset String → Finset String)
    (strategy : ∀ stage, (act stage w).1.renderer.strategy = stage.renderer.strategy)
    (quietly : ∀ stage, w.layout.Quietly (act stage w).2.layout) :
    Steady (t, w) (t.onStage id act finished failed w).2 := by
  apply steady_onStage head
  intro stage b before after entries
  rw [strategy, ← entries]
  exact Moves.quiet (quietly stage)

theorem steady_runById (head : t.renderer.strategy = .interactive node inserted) (id : String)
    (msg : Option String) : Steady (t, w) (t.runById id msg w).2 :=
  steady_quiet head id _ _ (fun _ => rfl) fun stage => stage.renderer.quietly_run w.now.2 msg

theorem steady_okById (head : t.renderer.strategy = .interactive node inserted)
    (id msg : String) : Steady (t, w) (t.okById id msg w).2 :=
  steady_quiet head id _ _ (fun _ => rfl) fun stage => stage.quietly_success w msg

theorem steady_skipById (head : t.renderer.strategy = .interactive node inserted)
    (id msg : String) : Steady (t, w) (t.skipById id msg w).2 :=
  steady_quiet head id _ _ (fun _ => rfl) fun stage => stage.renderer.quietly_skip w msg

theorem steady_failById (head : t.renderer.strategy = .interactive node inserted) (id : String)
    (report : ErrorReport) : Steady (t, w) (t.failById id report w).2 :=
  steady_onStage head id _ _ fun stage _ _ _ entries => stage.moves_fail w report entries

theorem steady_forIds {op : Task → String → Screen → Bool × Task × Screen}
    (steady : ∀ t w id, t.renderer.strategy = .interactive node inserted →
      Steady (t, w) (op t id w).2)
    (head : t.renderer.strategy = .interactive node inserted) (ids : List String) :
    Steady (t, w) (forIds op ids t w) := by
  induction ids generalizing t w with
  | nil => exact .refl _
  | cons id ids ih =>
    have first := steady t w id head
    exact first.trans (ih (by rw [first.renderer]; exact head))

theorem steady_step (head : t.renderer.strategy = .interactive node inserted) (op : TaskOp) :
    Steady (t, w) (Task.step (t, w) op) := by
  cases op with
  | runById id msg => exact steady_runById head id msg
  | okById id msg => exact steady_okById head id msg
  | failById id report => exact steady_failById head id report
  | skipById id msg => exact steady_skipById head id msg
  | run msg =>
    change Steady _ (t.performRun msg w)
    unfold performRun
    split_ifs
    · exact .refl _
    · exact steady_forIds (fun _ _ id head => steady_runById head id msg) head _

theorem steady_performOk (head : t.renderer.strategy = .interactive node inserted)
    (msg : String) : Steady (t, w) (t.performOk msg w) := by
  unfold performOk
  dsimp only
  split_ifs
  · exact .refl _
  · exact steady_setCompleted head msg
  · exact steady_forIds (fun _ _ id head => steady_okById head id msg) head _

theorem steady_performSkip (head : t.renderer.strategy = .interactive node inserted)
    (msg : String) : Steady (t, w) (t.performSkip msg w) := by
  unfold performSkip
  split_ifs
  · exact .refl _
  · exact steady_forIds (fun _ _ id head => steady_skipById head id msg) head _

theorem moves_consume (head : t.renderer.strategy = .interactive node []) (e : TaskEnd) :
    Moves (t.block, w.layout)
      ((Task.consume (t, w) e).1.block, (Task.consume (t, w) e).2.layout) := by
  cases e with
  | ok msg => exact (steady_performOk head msg).moves
  | skip msg => exact (steady_performSkip head msg).moves
  | fail error =>
    change Moves _ ((t.performFail error w).1.block, (t.performFail error w).2.layout)
    unfold performFail
    split_ifs
    · exact .refl
    · have failed := steady_forIds (w := w) (fun _ _ id head => steady_failById head id error)
        head t.collectStageIds
      revert failed
      generalize forIds (fun t id w => t.failById id error w) t.collectStageIds t w = s
      intro failed
      have kept : s.1.renderer.strategy = .interactive node [] := by
        rw [failed.renderer]
        exact head
      obtain ⟨l, first, renderer, last⟩ :=
        s.1.renderer.failInsert_of_interactive s.2 kept error s.1.startTime
      have report : Moves (s.1.block, s.2.layout)
          ((s.1.setFailedAndInsert error s.2).1.block,
            (s.1.setFailedAndInsert error s.2).2.layout) := by
        simp only [setFailedAndInsert, block, renderer]
        exact ((Moves.quiet first).tail (.headReport kept)).tail (.quiet last)
      have reported : (s.1.setFailedAndInsert error s.2).1.renderer.strategy =
          .interactive node [(l.insertAfter node).1] := by
        simp [setFailedAndInsert, renderer]
      have clear := moves_clearChildren (w := (s.1.setFailedAndInsert error s.2).2) reported
      exact (failed.moves.trans report).tail clear

end Task

end KnotOps.Terminal
