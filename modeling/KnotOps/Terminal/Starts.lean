import KnotOps.Terminal.Blocks

/-! Starts of tasks on one layout by several threads.
Every call on the layout holds the lock of the anchor from its first to its last
line, so a call is one step, and between two calls of one start the others can
make theirs.  What `start` does besides leaves the order of the bars and the
anchor alone; `start_alone` compares it with the machine where nobody else
runs. -/

namespace KnotOps.Terminal

open Machine Splice

universe u

inductive StartPhase where
  | waiting (children : Nat)
  | inserting (point : LayoutNode) (left : Nat)
  | returned
deriving DecidableEq, Repr

/-- How often `start` calls `insert_after`: for every step, and for the spacer. -/
def TaskBuilder.insertions (b : TaskBuilder) (autoIndent : Bool) : Nat :=
  b.steps.length + autoIndent.toNat

structure Starts (ι : Type u) where
  layout : TaskLayout
  phase : ι → StartPhase

namespace Starts

variable {ι : Type u} [DecidableEq ι]

def launch (l : TaskLayout) (calls : ι → TaskBuilder × Bool) : Starts ι :=
  ⟨l, fun i => .waiting ((calls i).1.insertions (calls i).2)⟩

def step (s : Starts ι) (i : ι) : Option (Starts ι) :=
  match s.phase i with
  | .waiting children =>
    let (head, layout) := s.layout.insert
    some ⟨layout, Function.update s.phase i (.inserting head children)⟩
  | .inserting point (left + 1) =>
    let (bar, layout) := s.layout.insertAfter point
    some ⟨layout, Function.update s.phase i (.inserting bar left)⟩
  | .inserting point 0 =>
    some ⟨s.layout.setAnchor point, Function.update s.phase i .returned⟩
  | .returned => none

theorem step_cases {s t : Starts ι} {i : ι} (taken : s.step i = some t) :
    (∃ children, s.phase i = .waiting children ∧
      t = ⟨s.layout.insert.2, Function.update s.phase i (.inserting s.layout.insert.1 children)⟩) ∨
    (∃ point left, s.phase i = .inserting point (left + 1) ∧
      t = ⟨(s.layout.insertAfter point).2,
        Function.update s.phase i (.inserting (s.layout.insertAfter point).1 left)⟩) ∨
    ∃ point, s.phase i = .inserting point 0 ∧
      t = ⟨s.layout.setAnchor point, Function.update s.phase i .returned⟩ := by
  unfold step at taken
  split at taken
  · rename_i children phase
    exact .inl ⟨children, phase, (Option.some.inj taken).symm⟩
  · rename_i point left phase
    exact .inr (.inl ⟨point, left, phase, (Option.some.inj taken).symm⟩)
  · rename_i point phase
    exact .inr (.inr ⟨point, phase, (Option.some.inj taken).symm⟩)
  · cases taken

end Starts

/-- A bar made by `insert` goes to the end of the order. -/
def TaskLayout.AnchorLast (l : TaskLayout) : Prop :=
  l.anchor = l.visible.getLast?

instance (l : TaskLayout) : Decidable l.AnchorLast :=
  inferInstanceAs (Decidable (_ = _))

namespace Sound

variable {l : TaskLayout}

theorem perm_insertAfter (sound : Sound l.visible l) {target : LayoutNode}
    (present : target ∈ l.visible) :
    (l.insertAfter target).2.visible.Perm ((l.insertAfter target).1 :: l.visible) := by
  rw [Ordered.visible_insertAfter sound present]
  exact spliceAfter_perm _ present

theorem perm_insert (sound : Sound l.visible l) :
    l.insert.2.visible.Perm (l.insert.1 :: l.visible) := by
  cases is_anchor : l.anchor with
  | none =>
    have empty : l.visible = [] := List.eq_nil_iff_forall_not_mem.mpr fun n member => by
      have inserted := sound.known n member
      rw [sound.absent is_anchor] at inserted
      cases inserted
    rw [Ordered.visible_insert sound sound.nodup (by rw [is_anchor, empty]; rfl), empty]
    exact .refl _
  | some a =>
    have same : l.insert.2.visible = (l.insertAfter a).2.visible := by
      simp only [TaskLayout.visible, TaskLayout.insert, TaskLayout.insertAfter, is_anchor]
    rw [same]
    exact sound.perm_insertAfter (sound.anchor a is_anchor)

theorem setAnchor (sound : Sound l.visible l) {node : LayoutNode} (present : node ∈ l.visible) :
    Sound (l.setAnchor node).visible (l.setAnchor node) :=
  { sound with
    anchor := fun _ is_anchor => Option.some.inj is_anchor ▸ present
    absent := fun none_anchor => nomatch none_anchor }

theorem anchorLast_insert (sound : Sound l.visible l) (last : l.AnchorLast) :
    l.insert.2.AnchorLast := by
  unfold TaskLayout.AnchorLast
  rw [Ordered.visible_insert sound sound.nodup last, List.getLast?_concat]
  rfl

theorem anchorLast_insertAfter (sound : Sound l.visible l) {target : LayoutNode}
    (present : target ∈ l.visible) (last : l.AnchorLast) : (l.insertAfter target).2.AnchorLast := by
  unfold TaskLayout.AnchorLast at last ⊢
  rw [Ordered.visible_insertAfter sound present, getLast?_spliceAfter present sound.nodup, ← last]
  rfl

end Sound

namespace Starts

variable {ι : Type u} {s t : Starts ι} {i : ι}

structure Placed (s : Starts ι) : Prop where
  sound : Sound s.layout.visible s.layout
  points : ∀ i point left, s.phase i = .inserting point left → point ∈ s.layout.visible

theorem launch_placed {l : TaskLayout} (sound : Sound l.visible l)
    (calls : ι → TaskBuilder × Bool) : (launch l calls).Placed :=
  ⟨sound, fun _ _ _ phase => nomatch phase⟩

variable [DecidableEq ι]

theorem Placed.update (h : s.Placed) {l : TaskLayout} {phase : StartPhase}
    (sound : Sound l.visible l) (kept : s.layout.visible ⊆ l.visible)
    (point : ∀ point left, phase = .inserting point left → point ∈ l.visible) :
    Placed ⟨l, Function.update s.phase i phase⟩ := by
  refine ⟨sound, fun j p left inserting => ?_⟩
  by_cases same : j = i
  · subst same
    exact point p left (by simpa using inserting)
  · exact kept (h.points j p left (by simpa [same] using inserting))

theorem step_placed (h : s.Placed) (taken : s.step i = some t) : t.Placed := by
  obtain ⟨children, -, rfl⟩ | ⟨point, left, phase, rfl⟩ | ⟨point, phase, rfl⟩ := step_cases taken
  · have perm := h.sound.perm_insert
    refine h.update (h.sound.insert.perm perm) (fun n old => ?_) fun p left inserting => ?_
    · exact perm.mem_iff.mpr (List.mem_cons_of_mem _ old)
    · rw [← (StartPhase.inserting.inj inserting).1]
      exact perm.mem_iff.mpr List.mem_cons_self
  · have present := h.points i point _ phase
    have perm := h.sound.perm_insertAfter present
    refine h.update ((h.sound.insertAfter present).perm perm) (fun n old => ?_)
      fun p left inserting => ?_
    · exact perm.mem_iff.mpr (List.mem_cons_of_mem _ old)
    · rw [← (StartPhase.inserting.inj inserting).1]
      exact perm.mem_iff.mpr List.mem_cons_self
  · exact h.update (h.sound.setAnchor (h.points i point _ phase)) (List.Subset.refl _)
      fun _ _ inserting => nomatch inserting

/-- A start that is about to return finds its own last bar as the anchor: since it
inserted its head nobody else has inserted one. -/
def AnchorIsOwn (s : Starts ι) (i : ι) : Prop :=
  ∀ point, s.phase i = .inserting point 0 → s.layout.anchor = some point

instance (s : Starts ι) (i : ι) : Decidable (s.AnchorIsOwn i) :=
  match phase : s.phase i with
  | .inserting point 0 =>
    decidable_of_iff (s.layout.anchor = some point) (by simp [AnchorIsOwn, phase])
  | .inserting _ (_ + 1) | .waiting _ | .returned => isTrue (by simp [AnchorIsOwn, phase])

theorem step_anchorLast_iff (h : s.Placed) (last : s.layout.AnchorLast)
    (taken : s.step i = some t) : t.layout.AnchorLast ↔ s.AnchorIsOwn i := by
  obtain ⟨children, phase, rfl⟩ | ⟨point, left, phase, rfl⟩ | ⟨point, phase, rfl⟩ :=
    step_cases taken
  · exact iff_of_true (h.sound.anchorLast_insert last) (by simp [AnchorIsOwn, phase])
  · exact iff_of_true (h.sound.anchorLast_insertAfter (h.points i point _ phase) last)
      (by simp [AnchorIsOwn, phase])
  · have own : s.AnchorIsOwn i ↔ s.layout.anchor = some point := by simp [AnchorIsOwn, phase]
    rw [own, last, eq_comm]
    exact Iff.rfl

end Starts

def TaskLayout.place (l : TaskLayout) : List LayoutNode × Option LayoutNode × Nat :=
  (l.multi.ordering, l.anchor, l.nodeCounter)

namespace TaskLayout

variable {l l' : TaskLayout}

theorem Quietly.place (quietly : l.Quietly l') : l'.place = l.place := by
  obtain ⟨calls, -, rfl⟩ := quietly
  rfl

theorem place_eq_iff :
    l.place = l'.place ↔ l.multi.ordering = l'.multi.ordering ∧ l.anchor = l'.anchor ∧
      l.nodeCounter = l'.nodeCounter := by
  simp [place]

theorem place_insertAfter (same : l.place = l'.place) (target : LayoutNode) :
    (l.insertAfter target).1 = (l'.insertAfter target).1 ∧
      (l.insertAfter target).2.place = (l'.insertAfter target).2.place := by
  obtain ⟨ordering, anchor, counter⟩ := place_eq_iff.mp same
  simp [insertAfter, nextId, place, anchor, counter, ordering, MultiProgress.insertAfter]

theorem place_setAnchor (same : l.place = l'.place) (node : LayoutNode) :
    (l.setAnchor node).place = (l'.setAnchor node).place := by
  obtain ⟨ordering, -, counter⟩ := place_eq_iff.mp same
  simp [setAnchor, place, counter, ordering]

end TaskLayout

namespace TaskBuilder

variable {ι : Type u} [DecidableEq ι] {b : TaskBuilder} {c next : Building} {s : Starts ι} {i : ι}
  {n : Nat}

structure Alongside (c : Building) (s : Starts ι) (i : ι) (n : Nat) : Prop where
  place : c.screen.layout.place = s.layout.place
  point : ∃ node, c.insertionPoint = some node ∧ s.phase i = .inserting node n

theorem Alongside.grow (h : Alongside c s i (n + 1)) {node : LayoutNode}
    (point : c.insertionPoint = some node) (grows : Grows c next node) :
    ∃ t, s.step i = some t ∧ Alongside next t i n := by
  obtain ⟨current, at_current, phase⟩ := h.point
  obtain rfl : node = current := Option.some.inj (point.symm.trans at_current)
  obtain ⟨bar, place⟩ := TaskLayout.place_insertAfter h.place node
  refine ⟨_, by rw [Starts.step, phase], ?_, _, grows.point, ?_⟩
  · exact grows.quietly.place.trans place
  · simp [bar]

theorem Alongside.addSteps (mode : b.mode = .interactive) {steps : List BuilderStep}
    (h : Alongside c s i (n + steps.length)) (added : steps.foldlM b.addStep c = some next) :
    ∃ t, run Starts.step s (List.replicate steps.length i) = some t ∧
      Alongside next t i n := by
  induction steps generalizing c s with
  | nil => exact ⟨s, rfl, Option.some.inj added ▸ h⟩
  | cons step steps ih =>
    rw [List.foldlM_cons] at added
    obtain ⟨mid, first, rest⟩ := Option.bind_eq_some_iff.mp added
    obtain ⟨node, point, -⟩ := h.point
    obtain ⟨t, taken, alongside⟩ :=
      Alongside.grow (n := n + steps.length) h point (addStep_grows mode point first)
    obtain ⟨last, reached, finished⟩ := ih alongside rest
    exact ⟨last, run_cons_eq_some.mpr ⟨t, taken, reached⟩, finished⟩

theorem Alongside.build (mode : b.mode = .interactive) {autoIndent : Bool}
    {point : Option LayoutNode} {w : Screen}
    (h : Alongside ⟨[], [], point, w⟩ s i (b.insertions autoIndent))
    (built : b.build autoIndent point w = some next) :
    ∃ t, run Starts.step s (List.replicate (b.insertions autoIndent) i) = some t ∧
      Alongside next t i 0 := by
  unfold TaskBuilder.build at built
  obtain ⟨mid, steps, indented⟩ := Option.bind_eq_some_iff.mp built
  rw [insertions, Nat.add_comm] at h
  obtain ⟨t, reached, alongside⟩ := h.addSteps mode steps
  cases autoIndent with
  | false => exact ⟨t, reached, Option.some.inj indented ▸ alongside⟩
  | true =>
    obtain ⟨node, point, -⟩ := alongside.point
    obtain ⟨last, taken, finished⟩ :=
      alongside.grow point (applyAutoIndent_grows mode point indented)
    refine ⟨last, ?_, finished⟩
    have count : b.insertions true = b.steps.length + 1 := rfl
    rw [count, List.replicate_succ', run_append, reached]
    exact run_cons_eq_some.mpr ⟨last, taken, rfl⟩

end TaskBuilder

namespace Task

structure Unsettled (l : TaskLayout) (s : Task × Screen) : Prop where
  finished : s.1.finishedStages = ∅
  failed : s.1.failedStages = ∅
  quietly : l.Quietly s.2.layout

theorem Unsettled.runById {l : TaskLayout} {t : Task} {w : Screen} (h : Unsettled l (t, w))
    (id : String) : Unsettled l (t.runById id none w).2 := by
  cases found : t.getStage id with
  | none =>
    simp only [Task.runById, onStage, found]
    exact h
  | some stage =>
    obtain ⟨before, after, -, replaced⟩ := replaceStage_split found
    have shown : l.Quietly (stage.run none w.now.2).layout :=
      h.quietly.trans (stage.renderer.quietly_run w.now.2 none)
    simp only [Task.runById, onStage, found, updateState]
    rw [h.finished, h.failed]
    by_cases ended : t.isFinished = true
    · rw [if_pos ended]
      exact ⟨rfl, rfl, shown⟩
    · rw [if_neg ended, if_neg (by simp),
        if_neg (by simp [stageIterator, replaced, TaskEntry.stage?])]
      exact ⟨rfl, rfl, shown⟩

theorem Unsettled.forIds {l : TaskLayout} {t : Task} {w : Screen} (h : Unsettled l (t, w))
    (ids : List String) :
    Unsettled l (Task.forIds (fun t id w => t.runById id none w) ids t w) := by
  induction ids generalizing t w with
  | nil => exact h
  | cons id ids ih => exact ih (h.runById id)

end Task

/-- Where nobody else runs, a start leaves the layout as the machine does. -/
theorem start_alone {ι : Type u} [DecidableEq ι] {b : TaskBuilder} (mode : b.mode = .interactive)
    {autoIndent : Bool} {w : Screen} {t : Task × Screen} (started : b.start autoIndent w = some t)
    {calls : ι → TaskBuilder × Bool} {i : ι} (call : calls i = (b, autoIndent)) :
    ∃ s, run Starts.step (Starts.launch w.layout calls)
        (i :: (List.replicate (b.insertions autoIndent) i ++ [i])) = some s ∧
      s.phase i = .returned ∧ t.2.layout.place = s.layout.place := by
  obtain ⟨strategy, point, layout⟩ := TaskBuilder.createHeadRenderer_interactive mode w
  obtain ⟨c, built, eq⟩ := Option.bind_eq_some_iff.mp started
  have titled : ((b.createHeadRenderer w).1.title (b.createHeadRenderer w).2.2).layout =
      w.layout.insert.2 := layout
  have head : (Starts.launch w.layout calls).step i = some ⟨w.layout.insert.2,
      Function.update (Starts.launch w.layout calls).phase i
        (.inserting w.layout.insert.1 (b.insertions autoIndent))⟩ := by
    simp [Starts.launch, Starts.step, call]
  have empty : TaskBuilder.Alongside
      ⟨[], [], (b.createHeadRenderer w).2.1,
        (b.createHeadRenderer w).1.title (b.createHeadRenderer w).2.2⟩
      ⟨w.layout.insert.2, Function.update (Starts.launch w.layout calls).phase i
        (.inserting w.layout.insert.1 (b.insertions autoIndent))⟩ i (b.insertions autoIndent) :=
    ⟨congrArg TaskLayout.place titled, _, point, by simp⟩
  obtain ⟨mid, reached, place, node, at_node, phase⟩ := empty.build mode built
  have returns : mid.step i =
      some ⟨mid.layout.setAnchor node, Function.update mid.phase i .returned⟩ := by
    rw [Starts.step, phase]
  refine ⟨⟨mid.layout.setAnchor node, Function.update mid.phase i .returned⟩, ?_, by simp, ?_⟩
  · rw [run, head, Option.bind_some, run_append, reached]
    exact run_cons_eq_some.mpr ⟨_, returns, rfl⟩
  · have unsettled : Task.Unsettled (c.screen.layout.setAnchor node)
        (Task.new (b.createHeadRenderer w).1 c.entries (b.placeAnchor c.insertionPoint c.screen)) := by
      refine ⟨rfl, rfl, ?_⟩
      simp only [Task.new, Screen.now, TaskBuilder.placeAnchor, mode, at_node]
      exact .refl _
    have last := unsettled.forIds c.autostart
    rw [← Option.some.inj eq]
    exact last.quietly.place.trans (TaskLayout.place_setAnchor place node)

/-- The layouts that a session leaves are ones that starts can begin on. -/
theorem Session.OrderedSession.sound_visible {s : Session} (h : s.OrderedSession) :
    Sound s.screen.layout.visible s.screen.layout := by
  apply h.sound.sound.perm
  rw [h.ordered.visible]
  exact perm_displayAll s.blocks

/-- The anchor is the last bar in every state of exactly the runs in which each
start that returns finds its own last bar as the anchor; after such a run the next
element goes under all others. -/
theorem anchor_last_iff {ι : Type u} [DecidableEq ι] (calls : ι → TaskBuilder × Bool)
    {l : TaskLayout} (sound : Sound l.visible l) (last : l.AnchorLast) {schedule : List ι}
    {s : Starts ι} (reached : run Starts.step (Starts.launch l calls) schedule = some s) :
    ((∀ taken mid, taken <+: schedule →
        run Starts.step (Starts.launch l calls) taken = some mid → mid.layout.AnchorLast) ↔
      Guarded Starts.AnchorIsOwn Starts.step (Starts.launch l calls) schedule) ∧
    (Guarded Starts.AnchorIsOwn Starts.step (Starts.launch l calls) schedule →
      s.layout.AnchorLast ∧
        s.layout.insert.2.visible = s.layout.visible ++ [s.layout.insert.1]) := by
  have start := Starts.launch_placed sound calls
  have always := always_guarded_iff Starts.Placed (fun s => s.layout.AnchorLast)
    (fun _ _ _ => Starts.step_placed) (fun _ _ _ => Starts.step_anchorLast_iff) start last reached
  refine ⟨always, fun allowed => ?_⟩
  have placed := run_invariant Starts.Placed (fun _ _ _ => Starts.step_placed) start reached
  have is_last : s.layout.AnchorLast :=
    always.mpr allowed schedule s (List.prefix_refl _) reached
  exact ⟨is_last, Ordered.visible_insert placed.sound placed.sound.nodup is_last⟩

def deployAndCheck : Bool → TaskBuilder × Bool
  | false => ((TaskBuilder.new "deploy" .modern .interactive).withStage "db" "database" false, false)
  | true => ((TaskBuilder.new "check" .modern .interactive).withStage "net" "network" false, false)

theorem anchor_last_one_after_the_other :
    ∃ s, run Starts.step (Starts.launch (TaskLayout.new none) deployAndCheck)
        [false, false, false, true, true, true] = some s ∧
      s.layout.AnchorLast ∧
      s.layout.insert.2.visible = s.layout.visible ++ [s.layout.insert.1] := by
  have runs : (run Starts.step (Starts.launch (TaskLayout.new none) deployAndCheck)
      [false, false, false, true, true, true]).isSome := by decide
  have allowed : Guarded Starts.AnchorIsOwn Starts.step
      (Starts.launch (TaskLayout.new none) deployAndCheck)
      [false, false, false, true, true, true] := by decide
  obtain ⟨s, reached⟩ := Option.isSome_iff_exists.mp runs
  exact ⟨s, reached,
    (anchor_last_iff (l := TaskLayout.new none) deployAndCheck Sound.new rfl reached).2 allowed⟩

/-- The second start begins while the first one has only its head, and the first
returns last: its stage is the anchor, above the whole of the second task. -/
theorem anchor_above_other_task :
    ∃ s, run Starts.step (Starts.launch (TaskLayout.new none) deployAndCheck)
        [false, true, false, true, true, false] = some s ∧
      (∀ i, s.phase i = .returned) ∧
      s.layout.visible = [⟨0⟩, ⟨2⟩, ⟨1⟩, ⟨3⟩] ∧ s.layout.anchor = some ⟨2⟩ ∧
      ¬ s.layout.AnchorLast ∧
      s.layout.insert.2.visible = [⟨0⟩, ⟨2⟩, ⟨4⟩, ⟨1⟩, ⟨3⟩] :=
  ⟨_, rfl, by decide⟩

end KnotOps.Terminal
