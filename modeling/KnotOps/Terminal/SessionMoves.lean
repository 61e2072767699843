import KnotOps.Machine
import KnotOps.Terminal.Block

/-! The moves of a whole session.
A call on an existing element is a chain of moves of its block; the creation of
an element inserts its head at the anchor and appends the bars of its entries.
An element that can still be called has no report under its head. -/

namespace KnotOps.Terminal

open KnotOps.Terminal.Task (Steady)

namespace TaskSequence

variable {s : TaskSequence} {w : Screen} {node : LayoutNode} {inserted : List LayoutNode}

abbrev SteadyInner (s s' : TaskSequence × Screen) : Prop :=
  Steady (s.1.inner, s.2) (s'.1.inner, s'.2)

theorem steady_activateCurrentStage
    (head : s.inner.renderer.strategy = .interactive node inserted) :
    SteadyInner (s, w) (s.activateCurrentStage w) := by
  unfold activateCurrentStage
  split
  · exact Task.steady_runById head _ none
  · exact Steady.refl _

theorem steady_new {t : Task} (head : t.renderer.strategy = .interactive node inserted)
    (autostart : Bool) : Steady (t, w) ((new t autostart w).1.inner, (new t autostart w).2) := by
  cases autostart with
  | false => exact Steady.refl _
  | true => exact steady_activateCurrentStage (s := ⟨t, 0, t.stageIterator.map (·.id)⟩) head

theorem steady_advance (head : s.inner.renderer.strategy = .interactive node inserted) :
    SteadyInner (s, w) (s.advance w) := by
  unfold advance
  dsimp only
  split_ifs
  · exact steady_activateCurrentStage (s := ⟨s.inner, s.currentStage + 1, s.allIds⟩) head
  · exact Task.steady_setCompleted head "success"

theorem steady_ok (head : s.inner.renderer.strategy = .interactive node inserted)
    (msg : String) : SteadyInner (s, w) (s.ok msg w) := by
  unfold ok
  split
  · rename_i id _
    have passed := Task.steady_okById (w := w) head id msg
    have kept : (s.inner.okById id msg w).2.1.renderer.strategy = .interactive node inserted := by
      rw [passed.renderer]
      exact head
    exact Steady.trans passed (steady_advance (s := ⟨_, s.currentStage, s.allIds⟩) kept)
  · exact Steady.refl _

theorem steady_skip (head : s.inner.renderer.strategy = .interactive node inserted)
    (msg : String) : SteadyInner (s, w) (s.skip msg w) := by
  unfold skip
  split
  · rename_i id _
    have passed := Task.steady_skipById (w := w) head id msg
    have kept : (s.inner.skipById id msg w).2.1.renderer.strategy = .interactive node inserted := by
      rw [passed.renderer]
      exact head
    exact Steady.trans passed (steady_advance (s := ⟨_, s.currentStage, s.allIds⟩) kept)
  · exact Steady.refl _

theorem steady_skipStages (head : s.inner.renderer.strategy = .interactive node inserted)
    {startFrom : Nat} {msg : String} {next : TaskSequence × Screen}
    (skipped : s.skipStages startFrom msg w = some next) : SteadyInner (s, w) next := by
  unfold skipStages at skipped
  obtain ⟨ids, -, eq⟩ := Option.bind_eq_some_iff.mp skipped
  rw [← Option.some.inj eq]
  exact Task.steady_forIds (fun _ _ id head => Task.steady_skipById head id msg) head ids

theorem steady_fail (head : s.inner.renderer.strategy = .interactive node inserted)
    {report : ErrorReport} {next : TaskSequence × Screen}
    (failed : s.fail report w = some next) : SteadyInner (s, w) next := by
  unfold fail at failed
  split at failed
  · rename_i id _
    have first := Task.steady_failById (w := w) head id report
    dsimp only at failed
    have kept : (s.inner.failById id report w).2.1.renderer.strategy =
        .interactive node inserted := by
      rw [first.renderer]
      exact head
    split_ifs at failed
    · exact Steady.trans first (steady_skipStages kept failed)
    · rw [← Option.some.inj failed]
      exact first
  · rw [← Option.some.inj failed]
    exact Steady.refl _

theorem steady_finish (head : s.inner.renderer.strategy = .interactive node inserted)
    {msg : String} {next : TaskSequence × Screen}
    (finished : s.finish msg w = some next) : SteadyInner (s, w) next := by
  unfold finish at finished
  dsimp only at finished
  split_ifs at finished
  · obtain ⟨mid, skipped, eq⟩ := Option.bind_eq_some_iff.mp finished
    have first := steady_skipStages head skipped
    have kept : mid.1.inner.renderer.strategy = .interactive node inserted := by
      rw [first.renderer]
      exact head
    rw [← Option.some.inj eq]
    exact Steady.trans first (Task.steady_setCompleted kept msg)
  · rw [← Option.some.inj finished]
    exact Task.steady_setCompleted head msg

theorem steady_step (head : s.inner.renderer.strategy = .interactive node inserted)
    {op : SequenceOp} {next : TaskSequence × Screen}
    (taken : TaskSequence.step (s, w) op = some next) : SteadyInner (s, w) next := by
  cases op with
  | ok msg => exact Option.some.inj taken ▸ steady_ok head msg
  | skip msg => exact Option.some.inj taken ▸ steady_skip head msg
  | fail report => exact steady_fail head taken
  | finish msg => exact steady_finish head taken

end TaskSequence

namespace Step

variable {s : Step} {w : Screen} {node : LayoutNode}

theorem layout_time : (s.time w).2.layout = w.layout := by
  unfold time
  split <;> rfl

theorem quietly_performOk (status : String) :
    w.layout.Quietly (s.performOk status w).layout := by
  have shown := s.renderer.quietly_success (s.time w).2 status (s.time w).1
  rwa [layout_time] at shown

theorem moves_performFail (head : s.renderer.strategy = .interactive node [])
    (error : ErrorReport) :
    Moves (⟨s.renderer.strategy, []⟩, w.layout)
      (⟨(s.performFail error w).1.renderer.strategy, []⟩, (s.performFail error w).2.layout) := by
  obtain ⟨l, first, renderer, last⟩ :=
    s.renderer.failInsert_of_interactive (s.time w).2 head error (s.time w).1
  rw [layout_time] at first
  simp only [performFail, renderer]
  exact ((Moves.quiet first).tail (.headReport head)).tail (.quiet last)

end Step

namespace Element

def block : Element → Block
  | task t => t.block
  | sequence s => s.inner.block
  | step s => ⟨s.renderer.strategy, []⟩
  | spacer node => ⟨.interactive node [], []⟩

theorem Does.moves {w w' : Screen} {op : SessionOp} {element element' : Element} {owned : Bool}
    (does : Does w op element element' owned w')
    (head : ∃ node, element.block.head = .interactive node []) :
    Moves (element.block, w.layout) (element'.block, w'.layout) ∧
      (owned = true → ∃ node, element'.block.head = .interactive node []) := by
  obtain ⟨node, head⟩ := head
  cases does with
  | task i t op =>
    have steady := Task.steady_step (w := w) head op
    have kept := (congrArg TaskRenderer.strategy steady.renderer).trans head
    exact ⟨steady.moves, fun _ => ⟨node, kept⟩⟩
  | endTask i t e => exact ⟨Task.moves_consume head e, nofun⟩
  | sequence i moved =>
    have steady := TaskSequence.steady_step head moved
    have kept := (congrArg TaskRenderer.strategy steady.renderer).trans head
    exact ⟨steady.moves, fun _ => ⟨node, kept⟩⟩
  | runStep i p status =>
    exact ⟨.quiet (p.renderer.quietly_run w status), fun _ => ⟨node, head⟩⟩
  | endStepOk i p status => exact ⟨.quiet (p.quietly_performOk status), nofun⟩
  | endStepFail i p error => exact ⟨p.moves_performFail head error, nofun⟩
  | endStepSkip i p status => exact ⟨.quiet (p.renderer.quietly_skip w status), nofun⟩

end Element

namespace TaskBuilder

structure Grows (s next : Building) (node : LayoutNode) : Prop where
  entries : ∃ entry, next.entries = s.entries ++ [entry] ∧
    entry.renderer.strategy = .interactive (s.screen.layout.insertAfter node).1 []
  point : next.insertionPoint = some (s.screen.layout.insertAfter node).1
  quietly : (s.screen.layout.insertAfter node).2.Quietly next.screen.layout

theorem addStep_grows {b : TaskBuilder} (mode : b.mode = .interactive) {s next : Building}
    {node : LayoutNode} (point : s.insertionPoint = some node) {step : BuilderStep}
    (added : b.addStep s step = some next) : Grows s next node := by
  cases step with
  | stage id name autoRun =>
    simp only [addStep, createChildRenderer, mode, point, Option.bind_eq_bind, Option.bind_some,
      Option.some.injEq] at added
    rw [← added]
    exact ⟨⟨_, rfl, rfl⟩, rfl, .refl _⟩
  | group header =>
    simp only [addStep, createChildRenderer, mode, point, Option.bind_eq_bind, Option.bind_some,
      Option.some.injEq] at added
    rw [← added]
    exact ⟨⟨_, rfl, rfl⟩, rfl, TaskRenderer.quietly_separator _ _⟩

theorem applyAutoIndent_grows {b : TaskBuilder} (mode : b.mode = .interactive)
    {s next : Building} {node : LayoutNode} (point : s.insertionPoint = some node)
    (indented : b.applyAutoIndent s = some next) : Grows s next node := by
  simp only [applyAutoIndent, mode, point, Option.some.injEq] at indented
  rw [← indented]
  exact ⟨⟨_, rfl, rfl⟩, rfl, TaskLayout.quietly_finish _ _⟩

structure Appending (b : TaskBuilder) (start : Block × TaskLayout) (s : Building)
    (head node : LayoutNode) : Prop where
  moves : Moves start (⟨.interactive head [], s.entries.map (·.renderer.strategy)⟩, s.screen.layout)
  last : (Block.display ⟨.interactive head [], s.entries.map (·.renderer.strategy)⟩).getLast? =
    some node
  point : s.insertionPoint = some node
  anchor : s.screen.layout.anchor = some node

variable {b : TaskBuilder} {start : Block × TaskLayout} {s next : Building} {head node : LayoutNode}

theorem Appending.grow (h : b.Appending start s head node) (grows : Grows s next node) :
    b.Appending start next head (s.screen.layout.insertAfter node).1 := by
  obtain ⟨⟨entry, entries, strategy⟩, point, quietly⟩ := grows
  refine ⟨?_, ?_, point, ?_⟩
  · have appended := Move.append (l := s.screen.layout) rfl h.last
    rw [entries, List.map_append, List.map_singleton, strategy]
    exact (h.moves.tail appended).tail (.quiet quietly)
  · rw [entries, List.map_append, List.map_singleton, strategy, Block.display_append]
    exact List.getLast?_concat
  · obtain ⟨calls, -, eq⟩ := quietly
    rw [eq]
    simp [TaskLayout.calling, TaskLayout.insertAfter, h.anchor]

theorem Appending.addSteps (mode : b.mode = .interactive) {steps : List BuilderStep}
    (h : b.Appending start s head node) (added : steps.foldlM b.addStep s = some next) :
    ∃ node, b.Appending start next head node := by
  rw [Machine.foldlM_eq_run] at added
  exact Machine.run_invariant (fun s => ∃ node, b.Appending start s head node)
    (fun _ _ _ ⟨_, appending⟩ taken =>
      ⟨_, appending.grow (addStep_grows mode appending.point taken)⟩) ⟨node, h⟩ added

theorem Appending.build (mode : b.mode = .interactive) {autoIndent : Bool}
    {point : Option LayoutNode} {w : Screen}
    (h : b.Appending start ⟨[], [], point, w⟩ head node)
    (built : b.build autoIndent point w = some next) :
    ∃ node, b.Appending start next head node := by
  unfold TaskBuilder.build at built
  obtain ⟨mid, steps, indented⟩ := Option.bind_eq_some_iff.mp built
  obtain ⟨last, appending⟩ := h.addSteps mode steps
  split_ifs at indented
  · exact ⟨_, appending.grow (applyAutoIndent_grows mode appending.point indented)⟩
  · exact ⟨last, Option.some.inj indented ▸ appending⟩

theorem createHeadRenderer_interactive {b : TaskBuilder} (mode : b.mode = .interactive)
    (w : Screen) :
    (b.createHeadRenderer w).1.strategy = .interactive w.layout.insert.1 [] ∧
      (b.createHeadRenderer w).2.1 = some w.layout.insert.1 ∧
      (b.createHeadRenderer w).2.2.layout = w.layout.insert.2 := by
  simp [createHeadRenderer, mode, TaskRenderer.new]

theorem start_moves {b : TaskBuilder} (mode : b.mode = .interactive) {autoIndent : Bool}
    {w : Screen} {t : Task} {w' : Screen} (started : b.start autoIndent w = some (t, w')) :
    t.renderer.strategy = .interactive w.layout.insert.1 [] ∧
      Moves (⟨.interactive w.layout.insert.1 [], []⟩, w.layout.insert.2) (t.block, w'.layout) := by
  obtain ⟨strategy, point, layout⟩ := createHeadRenderer_interactive mode w
  obtain ⟨s, built, eq⟩ := Option.bind_eq_some_iff.mp started
  have titled : ((b.createHeadRenderer w).1.title (b.createHeadRenderer w).2.2).layout =
      w.layout.insert.2 := layout
  have empty : b.Appending (⟨.interactive w.layout.insert.1 [], []⟩, w.layout.insert.2)
      ⟨[], [], (b.createHeadRenderer w).2.1,
        (b.createHeadRenderer w).1.title (b.createHeadRenderer w).2.2⟩
      w.layout.insert.1 w.layout.insert.1 :=
    ⟨by rw [titled]; exact .refl, rfl, point, by rw [titled]; rfl⟩
  obtain ⟨node, appending⟩ := empty.build mode built
  have placed : (b.placeAnchor s.insertionPoint s.screen).layout = s.screen.layout := by
    simp only [placeAnchor, mode, appending.point]
    rw [TaskLayout.setAnchor, ← appending.anchor]
  have moves := appending.moves
  rw [← placed] at moves
  have run := Task.steady_forIds (fun _ _ id head => Task.steady_runById head id none)
    (t := (Task.new (b.createHeadRenderer w).1 s.entries
      (b.placeAnchor s.insertionPoint s.screen)).1)
    (w := (Task.new (b.createHeadRenderer w).1 s.entries
      (b.placeAnchor s.insertionPoint s.screen)).2) strategy s.autostart
  have same : Task.forIds (fun t id w => t.runById id none w) s.autostart
      (Task.new (b.createHeadRenderer w).1 s.entries (b.placeAnchor s.insertionPoint s.screen)).1
      (Task.new (b.createHeadRenderer w).1 s.entries (b.placeAnchor s.insertionPoint s.screen)).2 =
      (t, w') := Option.some.inj eq
  rw [same] at run
  rw [← strategy]
  rw [← strategy] at moves
  exact ⟨congrArg TaskRenderer.strategy run.renderer, moves.trans run.moves⟩

end TaskBuilder

theorem TaskSequenceBuilder.chain_mode (b : TaskSequenceBuilder) (steps : List SequenceStep) :
    (b.chain steps).inner.mode = b.inner.mode := by
  induction steps generalizing b with
  | nil => rfl
  | cons step steps ih => cases step <;> exact ih _

namespace Session

def blocks (s : Session) : List Block :=
  s.slots.map (·.element.block)

def Tidy (s : Session) : Prop :=
  ∀ slot ∈ s.slots, slot.owned = true → ∃ node, slot.element.block.head = .interactive node []

theorem get?_eq_some {s : Session} {i : Nat} {element : Element} (found : s.get? i = some element) :
    s.slots[i]? = some ⟨element, true⟩ := by
  unfold get? at found
  split at found
  · rename_i eq
    rw [eq, Option.some.inj found]
  · cases found

structure Calls (s next : Session) : Prop where
  tidy : next.Tidy
  moves : ∃ before b b' after, s.blocks = before ++ b :: after ∧
    next.blocks = before ++ b' :: after ∧
    Moves (b, s.screen.layout) (b', next.screen.layout)

structure Creates (s next : Session) : Prop where
  tidy : next.Tidy
  moves : ∃ b, next.blocks = s.blocks ++ [b] ∧
    Moves (⟨.interactive s.screen.layout.insert.1 [], []⟩, s.screen.layout.insert.2)
      (b, next.screen.layout)

theorem Tidy.head {s : Session} {i : Nat} {element : Element} (tidy : s.Tidy)
    (found : s.get? i = some element) : ∃ node, element.block.head = .interactive node [] :=
  tidy _ (List.mem_of_getElem? (get?_eq_some found)) rfl

theorem set_calls {s : Session} {i : Nat} {element : Element} (tidy : s.Tidy)
    (found : s.get? i = some element) (element' : Element) (owned : Bool) {w : Screen}
    (moves : Moves (element.block, s.screen.layout) (element'.block, w.layout))
    (head : owned = true → ∃ node, element'.block.head = .interactive node []) :
    s.Calls (s.set i element' owned w) := by
  obtain ⟨inside, entry⟩ := List.getElem?_eq_some_iff.mp (get?_eq_some found)
  obtain ⟨before, after, slots, -, replaced⟩ :=
    @List.exists_of_set _ _ ⟨element', owned⟩ _ inside
  rw [entry] at slots
  constructor
  · intro slot member isOwned
    have inSlots : slot ∈ before ++ ⟨element', owned⟩ :: after := replaced ▸ member
    rcases List.mem_append.mp inSlots with old | rest
    · exact tidy slot (slots ▸ List.mem_append_left _ old) isOwned
    · rcases List.mem_cons.mp rest with rfl | old
      · exact head isOwned
      · exact tidy slot (slots ▸ List.mem_append_right _ (List.mem_cons_of_mem _ old)) isOwned
  · refine ⟨before.map (·.element.block), _, _, after.map (·.element.block), ?_, ?_, moves⟩
    · rw [blocks, slots]
      simp
    · rw [blocks, set, replaced]
      simp

theorem push_creates {s : Session} (tidy : s.Tidy) (element : Element) {w : Screen}
    (moves : Moves (⟨.interactive s.screen.layout.insert.1 [], []⟩, s.screen.layout.insert.2)
      (element.block, w.layout))
    (head : ∃ node, element.block.head = .interactive node []) :
    s.Creates (s.push element w) := by
  constructor
  · intro slot member isOwned
    rcases List.mem_append.mp member with old | new
    · exact tidy slot old isOwned
    · rw [List.mem_singleton.mp new]
      exact head
  · exact ⟨_, by simp [blocks, push], moves⟩

theorem create_creates {s next : Session} (tidy : s.Tidy) (op : SessionOp)
    (created : s.create op = some next) : s.Creates next := by
  cases op with
  | space =>
    rw [← Option.some.inj created]
    exact push_creates tidy (.spacer _) (.quiet (TaskLayout.quietly_finish _ _)) ⟨_, rfl⟩
  | newStep style name autoRun =>
    rw [← Option.some.inj created]
    cases autoRun with
    | false => exact push_creates tidy (.step _) .refl ⟨_, rfl⟩
    | true =>
      exact push_creates tidy (.step _) (.quiet (TaskRenderer.quietly_run _ _ _)) ⟨_, rfl⟩
  | newTask style name steps autoIndent =>
    obtain ⟨⟨t, w⟩, started, eq⟩ := Option.bind_eq_some_iff.mp created
    obtain ⟨head, moves⟩ := TaskBuilder.start_moves rfl started
    rw [← Option.some.inj eq]
    exact push_creates tidy (.task t) moves ⟨_, head⟩
  | newSequence style name steps autostart autoIndent =>
    obtain ⟨⟨q, w⟩, launched, eq⟩ := Option.bind_eq_some_iff.mp created
    rw [TaskSequenceBuilder.launch_eq] at launched
    obtain ⟨⟨t, w'⟩, started, sequence⟩ := Option.map_eq_some_iff.mp launched
    obtain ⟨head, moves⟩ := TaskBuilder.start_moves
      ((TaskSequenceBuilder.chain_mode _ steps).trans rfl) started
    have steady := TaskSequence.steady_new (w := w') head autostart
    rw [show TaskSequence.new t autostart w' = (q, w) from sequence] at steady
    rw [← Option.some.inj eq]
    have kept := (congrArg TaskRenderer.strategy steady.renderer).trans head
    exact push_creates tidy (.sequence q) (moves.trans steady.moves) ⟨_, kept⟩
  | task | endTask | sequence | runStep | endStep => cases created

theorem step_calls {s next : Session} (tidy : s.Tidy) {op : SessionOp}
    (call : op.creates = false) (taken : s.step op = some next) : s.Calls next := by
  obtain ⟨i, element, element', owned, w, -, found, does, rfl⟩ := step_cases call taken
  obtain ⟨moves, head⟩ := does.moves (tidy.head found)
  exact set_calls tidy found element' owned moves head

theorem step_creates {s next : Session} (tidy : s.Tidy) {op : SessionOp}
    (creation : op.creates = true) (taken : s.step op = some next) : s.Creates next := by
  cases op with
  | space => exact create_creates tidy .space taken
  | newStep style name autoRun => exact create_creates tidy (.newStep style name autoRun) taken
  | newTask style name steps autoIndent =>
    exact create_creates tidy (.newTask style name steps autoIndent) taken
  | newSequence style name steps autostart autoIndent =>
    exact create_creates tidy (.newSequence style name steps autostart autoIndent) taken
  | task | endTask | sequence | runStep | endStep => cases creation

end Session

end KnotOps.Terminal
