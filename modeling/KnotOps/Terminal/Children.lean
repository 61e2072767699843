import KnotOps.Machine
import KnotOps.Terminal.Block
import KnotOps.Terminal.Marks

/-! The children of a task: their bars, and whether they run.
An entry is active from the call that sets it running to the next one that ends
it; a bar ticks until it is finished or cleared, and never again.  `Keeps` and
`Settles` say what an operation on the stages does to the bars of the entries
and to the entries that run, and the invariants of a run follow from them. -/

namespace KnotOps.Terminal

open Machine

namespace MultiCall

def ended : MultiCall → Option LayoutNode
  | finish bar | finishAndClear bar => some bar
  | _ => none

end MultiCall

namespace MultiProgress

def ended (m : MultiProgress) : List LayoutNode :=
  m.calls.filterMap MultiCall.ended

/-- A ticker stops when it finds its bar finished. -/
def Ticks (m : MultiProgress) (bar : LayoutNode) : Prop :=
  .enableSteadyTick bar ∈ m.calls ∧ bar ∉ m.ended

instance (m : MultiProgress) (bar : LayoutNode) : Decidable (m.Ticks bar) :=
  inferInstanceAs (Decidable (_ ∧ _))

end MultiProgress

namespace TaskLayout

def Stops (l l' : TaskLayout) (bars new : List LayoutNode) : Prop :=
  ∃ calls, l'.multi.calls = l.multi.calls ++ calls ∧
    bars ⊆ calls.filterMap MultiCall.ended ∧ calls.filterMap MultiCall.inserted ⊆ new

def newBars (l l' : TaskLayout) : List LayoutNode :=
  l'.multi.inserted.drop l.multi.inserted.length

variable {l l' l'' : TaskLayout} {bars more new newer : List LayoutNode}

theorem Stops.refl (l : TaskLayout) : l.Stops l [] [] :=
  ⟨[], by simp, by simp, by simp⟩

theorem Stops.trans (first : l.Stops l' bars new) (second : l'.Stops l'' more newer) :
    l.Stops l'' (bars ++ more) (new ++ newer) := by
  obtain ⟨calls, eq, ends, inserts⟩ := first
  obtain ⟨later, eq', ends', inserts'⟩ := second
  refine ⟨calls ++ later, by rw [eq', eq, List.append_assoc], ?_, ?_⟩
  · rw [List.filterMap_append]
    exact List.append_subset.mpr
      ⟨List.subset_append_of_subset_left _ ends, List.subset_append_of_subset_right _ ends'⟩
  · rw [List.filterMap_append]
    exact List.append_subset.mpr
      ⟨List.subset_append_of_subset_left _ inserts, List.subset_append_of_subset_right _ inserts'⟩

theorem Stops.mono (h : l.Stops l' bars new) (fewer : more ⊆ bars) (larger : new ⊆ newer) :
    l.Stops l' more newer := by
  obtain ⟨calls, eq, ends, inserts⟩ := h
  exact ⟨calls, eq, List.Subset.trans fewer ends, List.Subset.trans inserts larger⟩

theorem Stops.ended (h : l.Stops l' bars new) : l.multi.ended ++ bars ⊆ l'.multi.ended := by
  obtain ⟨calls, eq, ends, -⟩ := h
  rw [MultiProgress.ended, MultiProgress.ended, eq, List.filterMap_append]
  exact List.append_subset.mpr
    ⟨List.subset_append_left _ _, List.subset_append_of_subset_right _ ends⟩

theorem Stops.cleared (h : l.Stops l' bars new) : l.multi.cleared ⊆ l'.multi.cleared := by
  obtain ⟨calls, eq, -, -⟩ := h
  rw [MultiProgress.cleared, MultiProgress.cleared, eq, List.filterMap_append]
  exact List.subset_append_left _ _

theorem Stops.newBars (h : l.Stops l' bars new) : l.newBars l' ⊆ new := by
  obtain ⟨calls, eq, -, inserts⟩ := h
  rw [TaskLayout.newBars, MultiProgress.inserted, MultiProgress.inserted, eq,
    List.filterMap_append, List.drop_left]
  exact inserts

theorem stops_finish (l : TaskLayout) (bar : LayoutNode) :
    l.Stops { l with multi := l.multi.finish bar } [bar] [] :=
  ⟨[.finish bar], rfl, by simp [MultiCall.ended], by simp [MultiCall.inserted]⟩

theorem stops_finish_all (l : TaskLayout) (bars : List LayoutNode) :
    l.Stops { l with multi := bars.foldl .finish l.multi } bars [] := by
  induction bars generalizing l with
  | nil => exact .refl l
  | cons bar bars ih => exact (l.stops_finish bar).trans (ih _)

theorem stops_clearing (l : TaskLayout) (bars : List LayoutNode) :
    l.Stops (l.clearing bars) bars [] := by
  refine ⟨bars.map .finishAndClear, rfl, ?_, ?_⟩
  · simp [List.filterMap_map, Function.comp_def, MultiCall.ended]
  · simp [List.filterMap_map, Function.comp_def, MultiCall.inserted]

theorem stops_enableSteadyTick (l : TaskLayout) (bar : LayoutNode) :
    l.Stops { l with multi := l.multi.enableSteadyTick bar } [] [] :=
  ⟨[.enableSteadyTick bar], rfl, by simp, by simp [MultiCall.inserted]⟩

theorem stops_insertAfter (l : TaskLayout) (target : LayoutNode) :
    l.Stops (l.insertAfter target).2 [] [(l.insertAfter target).1] :=
  ⟨[.insertAfter target ⟨l.nodeCounter⟩], rfl, by simp, by simp [MultiCall.inserted, insertAfter,
    nextId]⟩

theorem updateAnchorIfIn_multi (l : TaskLayout) (nodes : List LayoutNode)
    (fallback : LayoutNode) : (l.updateAnchorIfIn nodes fallback).multi = l.multi := by
  unfold updateAnchorIfIn
  split
  · split_ifs <;> rfl
  · rfl

end TaskLayout

namespace Screen

/-- Set running, and not ended since. -/
def Active (w : Screen) (key : Nat) : Prop :=
  (w.activity.filter (·.1 = key)).getLast? = some (key, true)

instance (w : Screen) (key : Nat) : Decidable (w.Active key) :=
  inferInstanceAs (Decidable (_ = _))

structure Ends (w w' : Screen) (bars new : List LayoutNode) (keys : List Nat) : Prop where
  layout : w.layout.Stops w'.layout bars new
  activity : ∃ ended, w'.activity = w.activity ++ ended.map (·, false) ∧ keys ⊆ ended

variable {w w' w'' : Screen} {bars more new newer : List LayoutNode} {keys others : List Nat}

theorem Ends.refl (w : Screen) : w.Ends w [] [] [] :=
  ⟨.refl _, [], by simp, by simp⟩

theorem Ends.trans (first : w.Ends w' bars new keys) (second : w'.Ends w'' more newer others) :
    w.Ends w'' (bars ++ more) (new ++ newer) (keys ++ others) := by
  obtain ⟨ended, eq, subset⟩ := first.activity
  obtain ⟨later, eq', subset'⟩ := second.activity
  refine ⟨first.layout.trans second.layout, ended ++ later, ?_, ?_⟩
  · rw [eq', eq, List.map_append, List.append_assoc]
  · exact List.append_subset.mpr
      ⟨List.subset_append_of_subset_left _ subset, List.subset_append_of_subset_right _ subset'⟩

theorem Ends.mono (h : w.Ends w' bars new keys) (fewer : more ⊆ bars) (larger : new ⊆ newer)
    (less : others ⊆ keys) : w.Ends w' more newer others := by
  obtain ⟨ended, eq, subset⟩ := h.activity
  exact ⟨h.layout.mono fewer larger, ended, eq, List.Subset.trans less subset⟩

theorem Ends.of_same (h : w.Ends w' bars new keys) (layout : w.layout = w''.layout)
    (activity : w.activity = w''.activity) : w''.Ends w' bars new keys :=
  ⟨layout ▸ h.layout, activity ▸ h.activity⟩

theorem active_turn (w : Screen) (r : TaskRenderer) : (w.turn r true).Active r.key := by
  simp [Active, turn]

theorem Active.of_ended {ended : List Nat} {key : Nat}
    (eq : w'.activity = w.activity ++ ended.map (·, false)) (active : w'.Active key) :
    w.Active key ∧ key ∉ ended := by
  rw [Active, eq, List.filter_append, List.getLast?_append] at active
  have since : ∀ e ∈ (ended.map (·, false)).filter (·.1 = key), e = (key, false) := by
    intro e member
    obtain ⟨inEnded, same⟩ := List.mem_filter.mp member
    obtain ⟨other, -, rfl⟩ := List.mem_map.mp inEnded
    simpa using same
  cases last : ((ended.map (·, false)).filter (·.1 = key)).getLast? with
  | some e =>
    rw [last, since e (List.mem_of_getLast? last)] at active
    simp at active
  | none =>
    rw [last, Option.none_or] at active
    refine ⟨active, fun member => ?_⟩
    have listed : (key, false) ∈ (ended.map (·, false)).filter (·.1 = key) := by simp [member]
    rw [List.getLast?_eq_none_iff.mp last] at listed
    cases listed

end Screen

namespace TaskRenderer

variable (r : TaskRenderer) (w : Screen)

theorem activity_onBar (call : MultiProgress → LayoutNode → MultiProgress) :
    (r.onBar call w).activity = w.activity := by
  unfold onBar
  split <;> rfl

theorem activity_shownDuration (start : Instant) :
    (r.shownDuration start w).2.activity = w.activity := by
  cases h : r.strategy <;> simp [shownDuration, formatDuration, Screen.now, h]

theorem stops_onBar_finish : w.layout.Stops (r.onBar .finish w).layout [] [] := by
  unfold onBar
  split
  · exact (w.layout.stops_finish _).mono (List.nil_subset _) (List.Subset.refl _)
  · exact .refl _

theorem ends_turn : w.Ends (w.turn r false) [] [] [r.key] :=
  ⟨.refl _, [r.key], rfl, List.Subset.refl _⟩

theorem ends_rendered (event : Event) :
    w.Ends (r.onBar .finish ((w.record r event).turn r false)) [] [] [r.key] := by
  refine ⟨r.stops_onBar_finish ((w.record r event).turn r false), [r.key], ?_, List.Subset.refl _⟩
  rw [activity_onBar]
  rfl

theorem ends_skip (msg : String) : w.Ends (r.skip msg w) [] [] [r.key] :=
  r.ends_rendered w (.skip msg)

theorem ends_success (msg : String) (start : Instant) :
    w.Ends (r.success msg start w) [] [] [r.key] := by
  have rendered := r.ends_rendered (r.shownDuration start w).2
    (.success msg (r.shownDuration start w).1)
  exact rendered.of_same (r.layout_shownDuration w start) (r.activity_shownDuration w start)

theorem ends_fail (start : Instant) : w.Ends (r.fail start w) [] [] [r.key] := by
  have rendered := r.ends_rendered (r.shownDuration start w).2
    (.fail (r.shownDuration start w).1)
  exact rendered.of_same (r.layout_shownDuration w start) (r.activity_shownDuration w start)

theorem ends_failInsert (error : ErrorReport) (start : Instant) :
    ∃ own, own.length ≤ 1 ∧
      (r.failInsert error start w).1.strategy.nodes = r.strategy.nodes ++ own ∧
      w.Ends (r.failInsert error start w).2 [] own [r.key] := by
  have failed := r.ends_fail w start
  cases h : r.strategy with
  | interactive node inserted =>
    generalize shown : r.fail start w = w' at failed
    have inserts := w'.layout.stops_insertAfter node
    have finishes := (w'.layout.insertAfter node).2.stops_finish (w'.layout.insertAfter node).1
    refine ⟨[(w'.layout.insertAfter node).1], le_rfl, ?_, ?_⟩
    · simp only [failInsert, h, shown, TaskRenderingStrategy.nodes, List.cons_append]
    · simp only [failInsert, h, shown]
      have reported := failed.layout.trans (inserts.trans finishes)
      exact ⟨reported.mono (List.nil_subset _) (List.Subset.refl _), failed.activity⟩
  | plain =>
    refine ⟨[], by simp, ?_, ?_⟩
    · simp [failInsert, h]
    · simp only [failInsert, h]
      exact ⟨failed.layout, failed.activity⟩

theorem ends_finishSilently :
    w.Ends (r.finishSilently w) r.strategy.nodes [] [r.key] := by
  have turned := r.ends_turn w
  cases h : r.strategy with
  | interactive node inserted =>
    simp only [finishSilently, h, TaskRenderingStrategy.nodes]
    have bars := (w.layout.stops_finish node).trans (TaskLayout.stops_finish_all _ inserted)
    exact ⟨bars, turned.activity⟩
  | plain =>
    simp only [finishSilently, h]
    exact turned

theorem ends_clear : w.Ends (r.clear w).2.2 r.strategy.nodes [] [r.key] := by
  refine ⟨?_, [r.key], ?_, List.Subset.refl _⟩
  · rw [(r.clear_eq w).2]
    exact w.layout.stops_clearing _
  · unfold clear
    split <;> rfl

end TaskRenderer

theorem ends_clearEntries (entries : List TaskEntry) (w : Screen) :
    w.Ends (clearEntries entries w).2
      ((entries.map (·.renderer.strategy)).flatMap TaskRenderingStrategy.nodes) []
      (entries.map (·.renderer.key)) := by
  induction entries generalizing w with
  | nil => exact .refl _
  | cons entry rest ih =>
    rw [List.map_cons, List.flatMap_cons, List.map_cons]
    exact (entry.renderer.ends_clear w).trans (ih _)

namespace Task

def entryKeys (t : Task) : List Nat :=
  t.entries.map (·.renderer.key)

variable (t : Task) (w : Screen)

theorem clearChildren_multi :
    (t.clearChildren w).2.layout.multi = (clearEntries t.entries w).2.layout.multi := by
  unfold clearChildren
  cases t.renderer.strategy with
  | interactive node inserted => exact TaskLayout.updateAnchorIfIn_multi _ _ _
  | plain => rfl

theorem ends_clearChildren :
    w.Ends (t.clearChildren w).2 t.block.entryNodes [] t.entryKeys := by
  obtain ⟨⟨calls, eq, rest⟩, ended, activity, keys⟩ := ends_clearEntries t.entries w
  refine ⟨⟨calls, by rw [clearChildren_multi, eq], rest⟩, ended, ?_, keys⟩
  rw [← activity]
  unfold clearChildren
  cases t.renderer.strategy <;> rfl

theorem cleared_clearChildren :
    t.block.entryNodes ⊆ (t.clearChildren w).2.layout.multi.cleared := by
  intro node member
  rw [clearChildren_multi, (clearEntries_eq t.entries w).2, MultiProgress.cleared]
  refine List.mem_filterMap.mpr ⟨.finishAndClear node, ?_, rfl⟩
  exact List.mem_append_right _ (List.mem_map_of_mem member)

theorem ends_finishChildren :
    w.Ends (t.finishChildren w) t.block.entryNodes [] t.entryKeys := by
  unfold finishChildren block Block.entryNodes entryKeys
  generalize t.entries = entries
  induction entries generalizing w with
  | nil => exact .refl _
  | cons entry rest ih =>
    rw [List.map_cons, List.flatMap_cons, List.map_cons]
    exact (entry.renderer.ends_finishSilently w).trans (ih _)

theorem ends_setCompleted (unfinished : t.isFinished = false) (msg : String) :
    w.Ends (t.setCompleted msg w).2 t.block.entryNodes [] t.entryKeys := by
  rw [setCompleted, unfinished, if_neg Bool.false_ne_true]
  have shown := t.renderer.ends_success w msg t.startTime
  exact (shown.trans ({ t with isFinished := true }.ends_clearChildren _)).mono
    (List.Subset.refl _) (List.Subset.refl _) (List.subset_cons_self _ _)

theorem cleared_setCompleted (unfinished : t.isFinished = false) (msg : String) :
    t.block.entryNodes ⊆ (t.setCompleted msg w).2.layout.multi.cleared := by
  rw [setCompleted, unfinished, if_neg Bool.false_ne_true]
  exact { t with isFinished := true }.cleared_clearChildren _

theorem ends_setFailedAndFreeze :
    w.Ends (t.setFailedAndFreeze w).2 t.block.entryNodes [] t.entryKeys := by
  have shown := t.renderer.ends_fail w t.startTime
  exact (shown.trans ({ t with isFinished := true }.ends_finishChildren _)).mono
    (List.Subset.refl _) (List.Subset.refl _) (List.subset_cons_self _ _)

theorem ends_setFailedAndClear (error : ErrorReport) :
    ∃ own, own.length ≤ 1 ∧
      (t.setFailedAndClear error w).1.renderer.strategy.nodes =
        t.renderer.strategy.nodes ++ own ∧
      w.Ends (t.setFailedAndClear error w).2 t.block.entryNodes own t.entryKeys := by
  obtain ⟨own, single, nodes, shown⟩ := t.renderer.ends_failInsert w error t.startTime
  refine ⟨own, single, nodes, ?_⟩
  have cleared := (t.setFailedAndInsert error w).1.ends_clearChildren
    (t.setFailedAndInsert error w).2
  exact (shown.trans cleared).mono (List.Subset.refl _) (by simp) (List.subset_cons_self _ _)

theorem cleared_setFailedAndClear (error : ErrorReport) :
    t.block.entryNodes ⊆ (t.setFailedAndClear error w).2.layout.multi.cleared :=
  (t.setFailedAndInsert error w).1.cleared_clearChildren _

/-- A bar of an entry, and every bar inserted since, belongs to an entry until it is
cleared; the entries are those from before until the task is finished, and then
their bars are ended. -/
structure Keeps (s s' : Task × Screen) : Prop where
  bars : ∃ new, s.2.layout.Stops s'.2.layout [] new ∧
    ∀ bar ∈ s.1.block.entryNodes ++ new,
      bar ∈ s'.1.block.entryNodes ∨ bar ∈ s'.2.layout.multi.cleared
  finished : s.1.isFinished = true → s'.1.isFinished = true
  ended : s.1.isFinished = false → s'.1.isFinished = true →
    s.1.block.entryNodes ⊆ s'.2.layout.multi.ended
  nodes : s'.1.isFinished = false → s.1.block.entryNodes ⊆ s'.1.block.entryNodes
  keys : s'.1.isFinished = false → s'.1.entryKeys = s.1.entryKeys
  entries : s'.1.entryKeys ⊆ s.1.entryKeys

structure Settles (s s' : Task × Screen) : Prop extends Keeps s s' where
  rests : ∃ ended, s'.2.activity = s.2.activity ++ ended.map (·, false) ∧
    (s.1.isFinished = false → s'.1.isFinished = true → s.1.entryKeys ⊆ ended)

variable {t w} {s s' s'' : Task × Screen}

theorem Keeps.refl (s : Task × Screen) : Keeps s s where
  bars := ⟨[], .refl _, fun bar member => .inl (by simpa using member)⟩
  finished := id
  ended unfinished finished := by rw [unfinished] at finished; cases finished
  nodes _ := List.Subset.refl _
  keys _ := rfl
  entries := List.Subset.refl _

theorem Keeps.unfinished (h : Keeps s s') (unfinished : s'.1.isFinished = false) :
    s.1.isFinished = false := by
  by_contra finished
  have after := h.finished (by simpa using finished)
  rw [unfinished] at after
  cases after

theorem Keeps.trans (first : Keeps s s') (second : Keeps s' s'') : Keeps s s'' where
  bars := by
    obtain ⟨new, inserts, held⟩ := first.bars
    obtain ⟨newer, inserts', held'⟩ := second.bars
    refine ⟨new ++ newer, inserts.trans inserts', fun bar member => ?_⟩
    rw [← List.append_assoc] at member
    rcases List.mem_append.mp member with early | late
    · rcases held bar early with entry | old
      · exact held' bar (List.mem_append_left _ entry)
      · exact .inr (inserts'.cleared old)
    · exact held' bar (List.mem_append_right _ late)
  finished h := second.finished (first.finished h)
  ended unfinished finished := by
    obtain ⟨_, inserts, _⟩ := second.bars
    cases mid : s'.1.isFinished with
    | true =>
      have still : s'.2.layout.multi.ended ⊆ s''.2.layout.multi.ended := by
        simpa using inserts.ended
      exact List.Subset.trans (first.ended unfinished mid) still
    | false => exact List.Subset.trans (first.nodes mid) (second.ended mid finished)
  nodes h := List.Subset.trans (first.nodes (second.unfinished h)) (second.nodes h)
  keys h := (second.keys h).trans (first.keys (second.unfinished h))
  entries := List.Subset.trans second.entries first.entries

theorem Settles.refl (s : Task × Screen) : Settles s s where
  toKeeps := .refl s
  rests := ⟨[], by simp, fun unfinished finished => by rw [unfinished] at finished; cases finished⟩

theorem Settles.trans (first : Settles s s') (second : Settles s' s'') : Settles s s'' where
  toKeeps := first.toKeeps.trans second.toKeeps
  rests := by
    obtain ⟨ended, eq, all⟩ := first.rests
    obtain ⟨later, eq', all'⟩ := second.rests
    refine ⟨ended ++ later, by rw [eq', eq, List.map_append, List.append_assoc], ?_⟩
    intro unfinished finished
    cases mid : s'.1.isFinished with
    | true => exact List.subset_append_of_subset_left _ (all unfinished mid)
    | false =>
      exact List.subset_append_of_subset_right _ (first.keys mid ▸ all' mid finished)

theorem Settles.of_ends (t' : Task) {w' : Screen} {keys : List Nat}
    (finished : t'.isFinished = true)
    (ends : w.Ends w' t.block.entryNodes [] keys) (all : t.entryKeys ⊆ keys)
    (bars : ∀ bar ∈ t.block.entryNodes, bar ∈ t'.block.entryNodes ∨ bar ∈ w'.layout.multi.cleared)
    (entries : t'.entryKeys ⊆ t.entryKeys) : Settles (t, w) (t', w') where
  bars := ⟨[], ends.layout.mono (List.nil_subset _) (List.Subset.refl _),
    fun bar member => bars bar (by simpa using member)⟩
  finished _ := finished
  ended _ _ := List.Subset.trans (List.subset_append_right _ _) ends.layout.ended
  nodes unfinished := by rw [finished] at unfinished; cases unfinished
  keys unfinished := by rw [finished] at unfinished; cases unfinished
  entries := entries
  rests := by
    obtain ⟨ended, eq, subset⟩ := ends.activity
    exact ⟨ended, eq, fun _ _ => List.Subset.trans all subset⟩

theorem settles_setCompleted (msg : String) : Settles (t, w) (t.setCompleted msg w) := by
  cases finished : t.isFinished with
  | true =>
    rw [t.setCompleted_of_finished w msg finished]
    exact .refl _
  | false =>
    have first := t.setCompleted_fst w msg finished
    have ends := t.ends_setCompleted w finished msg
    have cleared := t.cleared_setCompleted w finished msg
    exact Settles.of_ends (t.setCompleted msg w).1 (by rw [first]) ends (List.Subset.refl _)
      (fun bar member => .inr (cleared member)) (by rw [first]; exact List.nil_subset _)

theorem settles_setFailedAndFreeze : Settles (t, w) (t.setFailedAndFreeze w) :=
  .of_ends _ rfl (t.ends_setFailedAndFreeze w) (List.Subset.refl _) (fun _ member => .inl member)
    (List.Subset.refl _)

theorem settles_updateState : Settles (t, w) (t.updateState w).2 := by
  unfold Task.updateState
  split_ifs
  · exact .refl _
  · exact settles_setFailedAndFreeze
  · exact settles_setCompleted "success"
  · exact .refl _

structure StageAct (act : Stage → Screen → Stage × Screen) : Prop where
  bars : ∀ s (w : Screen), w.layout.Stops (act s w).2.layout [] (act s w).1.renderer.strategy.nodes
  nodes : ∀ s (w : Screen), s.renderer.strategy.nodes ⊆ (act s w).1.renderer.strategy.nodes
  key : ∀ s (w : Screen), (act s w).1.renderer.key = s.renderer.key

structure CalmAct (act : Stage → Screen → Stage × Screen) : Prop extends StageAct act where
  activity : ∀ s (w : Screen), ∃ ended : List Nat,
    (act s w).2.activity = w.activity ++ ended.map (·, false)

theorem activity_start (s : Stage) (w : Screen) : (s.start w).2.activity = w.activity := by
  unfold Stage.start
  split <;> rfl

theorem runById_act (msg : Option String) : StageAct fun s w =>
    ({ s with startTime := some w.now.1 }, s.run msg w.now.2) where
  bars s w := by
    apply TaskLayout.Stops.mono _ (List.Subset.refl _) (List.nil_subset _)
    unfold Stage.run TaskRenderer.run TaskRenderer.onBar
    split
    · exact w.layout.stops_enableSteadyTick _
    · exact .refl _
  nodes _ _ := List.Subset.refl _
  key _ _ := rfl

theorem CalmAct.of_ends {act : Stage → Screen → Screen} {keys : Stage → List Nat}
    (ends : ∀ s (w : Screen), w.Ends (act s w) [] [] (keys s)) :
    CalmAct fun s w => (s, act s w) where
  bars s w := (ends s w).layout.mono (List.Subset.refl _) (List.nil_subset _)
  nodes _ _ := List.Subset.refl _
  key _ _ := rfl
  activity s w := (ends s w).activity.imp fun _ h => h.1

theorem okById_calm (msg : String) : CalmAct fun s w => (s, s.success msg w) :=
  .of_ends fun s w => (s.renderer.ends_success (s.start w).2 msg (s.start w).1).of_same
    (s.layout_start w) (activity_start s w)

theorem skipById_calm (msg : String) : CalmAct fun s w => (s, s.skip msg w) :=
  .of_ends fun s w => s.renderer.ends_skip w msg

theorem failById_calm (report : ErrorReport) : CalmAct fun s w => s.fail report w := by
  have fails (s : Stage) (w : Screen) :=
    s.renderer.ends_failInsert (s.start w).2 report (s.start w).1
  refine ⟨⟨fun s w => ?_, fun s w => ?_, fun s w => s.key_fail w report⟩, fun s w => ?_⟩
  · obtain ⟨own, -, nodes, ends⟩ := fails s w
    have same := ends.of_same (s.layout_start w) (activity_start s w)
    apply same.layout.mono (List.Subset.refl _)
    simp only [Stage.fail, nodes]
    exact List.subset_append_right _ _
  · obtain ⟨own, -, nodes, -⟩ := fails s w
    simp only [Stage.fail, nodes]
    exact List.subset_append_left _ _
  · obtain ⟨own, -, -, ends⟩ := fails s w
    have same := ends.of_same (s.layout_start w) (activity_start s w)
    exact same.activity.imp fun _ h => h.1

theorem entries_replaceStage {id : String} {old s : Stage} (found : t.getStage id = some old)
    (nodes : old.renderer.strategy.nodes ⊆ s.renderer.strategy.nodes)
    (key : s.renderer.key = old.renderer.key) :
    let t' := { t with entries := replaceStage id s t.entries }
    t.block.entryNodes ++ s.renderer.strategy.nodes ⊆ t'.block.entryNodes ∧
      t'.entryKeys = t.entryKeys := by
  obtain ⟨before, after, split, replaced⟩ := replaceStage_split found
  have replaced := replaced s
  constructor
  · intro node member
    simp only [block, Block.entryNodes, replaced]
    simp only [block, Block.entryNodes, split] at member
    simp only [List.map_append, List.map_cons, List.flatMap_append, List.flatMap_cons,
      List.mem_append, TaskEntry.renderer] at member ⊢
    rcases member with (first | stage | last) | new
    · exact .inl first
    · exact .inr (.inl (nodes stage))
    · exact .inr (.inr last)
    · exact .inr (.inl new)
  · simp only [entryKeys, replaced]
    simp [split, TaskEntry.renderer, key]

section OnStage

variable {id : String} {stage : Stage} {act : Stage → Screen → Stage × Screen}

theorem keeps_replaceStage (acts : StageAct act) (found : t.getStage id = some stage)
    (finished failed : Finset String) :
    Keeps (t, w) ({ t with
      entries := replaceStage id (act stage w).1 t.entries
      finishedStages := finished
      failedStages := failed }, (act stage w).2) := by
  obtain ⟨nodes, keys⟩ := entries_replaceStage found (acts.nodes stage w) (acts.key stage w)
  refine ⟨⟨_, acts.bars stage w, fun bar member => .inl (nodes member)⟩, fun finished => finished,
    fun unfinished finished => ?_, fun _ => List.Subset.trans (List.subset_append_left _ _) nodes,
    fun _ => keys, fun _ member => keys ▸ member⟩
  change t.isFinished = true at finished
  rw [unfinished] at finished
  cases finished

theorem keeps_onStage (acts : StageAct act) (id : String)
    (finished failed : Finset String → Finset String) :
    Keeps (t, w) (t.onStage id act finished failed w).2 := by
  cases found : t.getStage id with
  | none =>
    simp only [Task.onStage, found]
    exact .refl _
  | some stage =>
    simp only [Task.onStage, found]
    exact (keeps_replaceStage acts found _ _).trans settles_updateState.toKeeps

theorem settles_onStage (calm : CalmAct act) (id : String)
    (finished failed : Finset String → Finset String) :
    Settles (t, w) (t.onStage id act finished failed w).2 := by
  cases found : t.getStage id with
  | none =>
    simp only [Task.onStage, found]
    exact .refl _
  | some stage =>
    simp only [Task.onStage, found]
    obtain ⟨ended, eq⟩ := calm.activity stage w
    have kept := keeps_replaceStage (w := w) calm.toStageAct found (finished t.finishedStages)
      (failed t.failedStages)
    refine Settles.trans ⟨kept, ended, eq, fun unfinished finished => ?_⟩ settles_updateState
    change t.isFinished = true at finished
    rw [unfinished] at finished
    cases finished

theorem renderer_updateState : (t.updateState w).2.1.renderer = t.renderer := by
  unfold Task.updateState setCompleted
  split_ifs <;> rfl

theorem renderer_onStage (id : String) (act : Stage → Screen → Stage × Screen)
    (finished failed : Finset String → Finset String) :
    (t.onStage id act finished failed w).2.1.renderer = t.renderer := by
  cases found : t.getStage id with
  | none => simp only [Task.onStage, found]
  | some stage =>
    simp only [Task.onStage, found]
    exact renderer_updateState

end OnStage

theorem Keeps.forIds {op : Task → String → Screen → Bool × Task × Screen}
    (keeps : ∀ t w id, Keeps (t, w) (op t id w).2) (ids : List String) :
    Keeps (t, w) (Task.forIds op ids t w) :=
  exec_invariant (Keeps (t, w)) (fun s id before => before.trans (keeps s.1 s.2 id)) (.refl _) ids

theorem Settles.forIds {op : Task → String → Screen → Bool × Task × Screen}
    (settles : ∀ t w id, Settles (t, w) (op t id w).2) (ids : List String) :
    Settles (t, w) (Task.forIds op ids t w) :=
  exec_invariant (Settles (t, w)) (fun s id before => before.trans (settles s.1 s.2 id))
    (.refl _) ids

theorem renderer_forIds {op : Task → String → Screen → Bool × Task × Screen}
    (renderer : ∀ t w id, (op t id w).2.1.renderer = t.renderer) (ids : List String) :
    (Task.forIds op ids t w).1.renderer = t.renderer :=
  exec_invariant (fun s : Task × Screen => s.1.renderer = t.renderer)
    (fun s id same => (renderer s.1 s.2 id).trans same) rfl ids

structure Kept (first : Task) (s : Task × Screen) : Prop where
  ended : s.1.isFinished = true → first.block.entryNodes ⊆ s.2.layout.multi.ended
  nodes : s.1.isFinished = false → first.block.entryNodes ⊆ s.1.block.entryNodes
  keys : s.1.isFinished = false → s.1.entryKeys = first.entryKeys
  entries : s.1.entryKeys ⊆ first.entryKeys

/-- Once the task is finished none of its entries is active. -/
structure Idle (first : Task) (s : Task × Screen) : Prop extends Kept first s where
  rests : s.1.isFinished = true → ∀ key ∈ first.entryKeys, ¬ s.2.Active key

variable {first : Task}

theorem Kept.of_open (unfinished : t.isFinished = false) : Kept t (t, w) where
  ended finished := by rw [unfinished] at finished; cases finished
  nodes _ := List.Subset.refl _
  keys _ := rfl
  entries := List.Subset.refl _

theorem Kept.idle (h : Kept first (t, w)) (unfinished : t.isFinished = false) :
    Idle first (t, w) :=
  ⟨h, fun finished => by rw [unfinished] at finished; cases finished⟩

theorem Kept.of_keeps (h : Kept first s) (keeps : Keeps s s') : Kept first s' where
  ended finished := by
    obtain ⟨_, inserts, _⟩ := keeps.bars
    cases before : s.1.isFinished with
    | true =>
      have still : s.2.layout.multi.ended ⊆ s'.2.layout.multi.ended := by
        simpa using inserts.ended
      exact List.Subset.trans (h.ended before) still
    | false => exact List.Subset.trans (h.nodes before) (keeps.ended before finished)
  nodes unfinished :=
    List.Subset.trans (h.nodes (keeps.unfinished unfinished)) (keeps.nodes unfinished)
  keys unfinished := (keeps.keys unfinished).trans (h.keys (keeps.unfinished unfinished))
  entries := List.Subset.trans keeps.entries h.entries

theorem Idle.of_settles (h : Idle first s) (settles : Settles s s') : Idle first s' where
  toKept := h.toKept.of_keeps settles.toKeeps
  rests finished key member active := by
    obtain ⟨ended, eq, all⟩ := settles.rests
    obtain ⟨before, notEnded⟩ := active.of_ended eq
    cases was : s.1.isFinished with
    | true => exact h.rests was key member before
    | false => exact notEnded (all was finished (h.keys was ▸ member))

theorem Kept.setFailedAndClear (h : Kept first (t, w)) (error : ErrorReport) :
    Kept first (t.setFailedAndClear error w) := by
  obtain ⟨own, -, -, ends⟩ := t.ends_setFailedAndClear w error
  have all := List.append_subset.mp ends.layout.ended
  refine ⟨fun _ => ?_, nofun, nofun, List.nil_subset _⟩
  cases finished : t.isFinished with
  | true => exact List.Subset.trans (h.ended finished) all.1
  | false => exact List.Subset.trans (h.nodes finished) all.2

theorem Idle.setFailedAndClear (h : Idle first (t, w)) (error : ErrorReport) :
    Idle first (t.setFailedAndClear error w) := by
  refine ⟨h.toKept.setFailedAndClear error, fun _ key member active => ?_⟩
  obtain ⟨own, -, -, ends⟩ := t.ends_setFailedAndClear w error
  obtain ⟨ended, eq, subset⟩ := ends.activity
  obtain ⟨before, notEnded⟩ := active.of_ended eq
  cases finished : t.isFinished with
  | true => exact h.rests finished key member before
  | false => exact notEnded (subset (h.keys finished ▸ member))

theorem Idle.onStage_of_open (h : Idle first (t, w)) (unfinished : t.isFinished = false)
    (id : String) {act : Stage → Screen → Stage × Screen} (acts : StageAct act)
    (finished failed : Finset String → Finset String) :
    Idle first (t.onStage id act finished failed w).2 := by
  cases found : t.getStage id with
  | none =>
    simp only [Task.onStage, found]
    exact h
  | some stage =>
    simp only [Task.onStage, found]
    have kept := h.toKept.of_keeps (keeps_replaceStage (w := w) acts found
      (finished t.finishedStages) (failed t.failedStages))
    exact (kept.idle unfinished).of_settles settles_updateState

end Task

end KnotOps.Terminal
