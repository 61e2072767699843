import Mathlib.Data.List.Forall2
import KnotOps.Terminal.Start
import KnotOps.Terminal.Starts

/-! `start` against the builder script.
Each step of the script has its entry, in the order of the steps, and what is
rendered on the way is the title, one record for each step and one for each stage
that runs at once.  In interactive mode the bars of the task stand in one run after
the anchor that the layout had before. -/

namespace KnotOps.Terminal

open Splice

namespace BuilderStep

def event : BuilderStep → Event
  | stage _ _ _ => .wait none
  | group _ => .separator

def autoRuns : BuilderStep → Bool
  | stage _ _ autoRun => autoRun
  | group _ => false

def childName : BuilderStep → String
  | stage _ name _ => name
  | group header => header.getD ""

end BuilderStep

@[simp] theorem TaskRenderer.log_onBar (r : TaskRenderer)
    (call : MultiProgress → LayoutNode → MultiProgress) (w : Screen) :
    (r.onBar call w).log = w.log := by
  unfold TaskRenderer.onBar
  split <;> rfl

namespace TaskBuilder

structure Child (b : TaskBuilder) (name : String) (r : TaskRenderer) : Prop where
  name : r.name = name
  style : r.style = b.style
  indentSpaces : r.indentSpaces = childIndentSpaces
  plain : b.mode = .plain → r.strategy = .plain ("[" ++ b.name ++ "]")
  interactive : b.mode = .interactive → ∃ node, r.strategy = .interactive node []

/-- The entry of a step, before the stages are run and when they run. -/
def Entered (b : TaskBuilder) (running : Bool) : BuilderStep → TaskEntry → Prop
  | .stage id name autoRun, .stage s =>
    s.id = id ∧ s.startTime.isSome = (running && autoRun) ∧ b.Child name s.renderer
  | .group header, .extra r => b.Child (header.getD "") r
  | .stage _ _ _, .extra _ | .group _, .stage _ => False

def records (steps : List BuilderStep) (entries : List TaskEntry) : List Record :=
  List.zipWith (fun step entry => ⟨entry.renderer, step.event⟩) steps entries

def runRecords (steps : List BuilderStep) (entries : List TaskEntry) : List Record :=
  (steps.zip entries).filterMap fun (step, entry) =>
    if step.autoRuns then some ⟨entry.renderer, .run none⟩ else none

variable {b : TaskBuilder}

theorem mem_records {steps : List BuilderStep} {entries : List TaskEntry} {r : Record}
    (member : r ∈ records steps entries) :
    ∃ (step : BuilderStep) (entry : TaskEntry), entry ∈ entries ∧
      r = ⟨entry.renderer, step.event⟩ := by
  rw [records, ← List.map_uncurry_zip_eq_zipWith] at member
  obtain ⟨⟨step, entry⟩, paired, rfl⟩ := List.mem_map.mp member
  exact ⟨step, entry, (List.of_mem_zip paired).2, rfl⟩

theorem mem_runRecords {steps : List BuilderStep} {entries : List TaskEntry} {r : Record}
    (member : r ∈ runRecords steps entries) :
    ∃ entry ∈ entries, r = ⟨entry.renderer, .run none⟩ := by
  obtain ⟨⟨step, entry⟩, paired, same⟩ := List.mem_filterMap.mp member
  obtain ⟨-, same⟩ := Option.ite_none_right_eq_some.mp same
  exact ⟨entry, (List.of_mem_zip paired).2, (Option.some.inj same).symm⟩

theorem child_of_entered {running : Bool} {steps : List BuilderStep} {entries : List TaskEntry}
    (entered : List.Forall₂ (b.Entered running) steps entries) {entry : TaskEntry}
    (member : entry ∈ entries) : ∃ step ∈ steps, b.Child step.childName entry.renderer := by
  induction entered with
  | nil => cases member
  | @cons step first steps entries entered _ ih =>
    rcases List.mem_cons.mp member with rfl | later
    · refine ⟨step, List.mem_cons_self, ?_⟩
      cases step with
      | stage id name autoRun =>
        cases entry with
        | stage s => exact entered.2.2
        | extra r => exact entered.elim
      | group header =>
        cases entry with
        | stage s => exact entered.elim
        | extra r => exact entered
    · obtain ⟨step, inSteps, child⟩ := ih later
      exact ⟨step, List.mem_cons_of_mem _ inSteps, child⟩

theorem createChildRenderer_child {childName : String} {point next : Option LayoutNode}
    {w w' : Screen} {r : TaskRenderer}
    (created : b.createChildRenderer childName point childIndentSpaces w = some (r, next, w')) :
    b.Child childName r ∧ w'.log = w.log := by
  unfold createChildRenderer at created
  split at created
  · rename_i mode
    cases created
    exact ⟨⟨rfl, rfl, rfl, fun _ => rfl, fun interactive => by simp [mode] at interactive⟩, rfl⟩
  · rename_i mode
    cases created
    exact ⟨⟨rfl, rfl, rfl, fun plain => by simp [mode] at plain, fun _ => ⟨_, rfl⟩⟩, rfl⟩
  · cases created

/-- The loop of `start` after the steps `done`, on a screen with the records `log`. -/
structure Scripted (b : TaskBuilder) (log : List Record) (done : List BuilderStep)
    (s : Building) : Prop where
  entries : List.Forall₂ (b.Entered false) done s.entries
  log : s.screen.log = log ++ records done s.entries
  autostart : s.autostart = done.filterMap BuilderStep.autostartId

variable {log : List Record} {done : List BuilderStep} {s next : Building}

theorem records_concat (entered : List.Forall₂ (b.Entered false) done s.entries)
    (step : BuilderStep) (entry : TaskEntry) :
    records (done ++ [step]) (s.entries ++ [entry]) =
      records done s.entries ++ [⟨entry.renderer, step.event⟩] :=
  List.zipWith_append entered.length_eq

theorem Scripted.addStep (h : b.Scripted log done s) {step : BuilderStep}
    (added : b.addStep s step = some next) : b.Scripted log (done ++ [step]) next := by
  cases step with
  | stage id name autoRun =>
    obtain ⟨⟨r, point, w⟩, created, rest⟩ := Option.bind_eq_some_iff.mp added
    obtain rfl := Option.some.inj rest
    obtain ⟨child, same⟩ := createChildRenderer_child created
    refine ⟨List.rel_append h.entries (.cons ⟨rfl, by simp [Stage.new], child⟩ .nil), ?_, ?_⟩
    · rw [records_concat h.entries, ← List.append_assoc, ← h.log, ← same]
      rfl
    · cases autoRun <;> simp [h.autostart, BuilderStep.autostartId]
  | group header =>
    obtain ⟨⟨r, point, w⟩, created, rest⟩ := Option.bind_eq_some_iff.mp added
    obtain rfl := Option.some.inj rest
    obtain ⟨child, same⟩ := createChildRenderer_child created
    refine ⟨List.rel_append h.entries (.cons child .nil), ?_, ?_⟩
    · rw [records_concat h.entries, ← List.append_assoc, ← h.log, ← same]
      simp [TaskRenderer.separator, Screen.record, TaskEntry.renderer, BuilderStep.event]
    · simp [h.autostart, BuilderStep.autostartId]

theorem Scripted.addSteps (h : b.Scripted log done s) {steps : List BuilderStep}
    (added : steps.foldlM b.addStep s = some next) : b.Scripted log (done ++ steps) next := by
  induction steps generalizing done s with
  | nil => simpa [← Option.some.inj added] using h
  | cons step steps ih =>
    rw [List.foldlM_cons] at added
    obtain ⟨mid, first, rest⟩ := Option.bind_eq_some_iff.mp added
    have more := ih (h.addStep first) rest
    rwa [List.append_assoc] at more

structure Built (b : TaskBuilder) (autoIndent : Bool) (log : List Record)
    (children : List TaskEntry) (spacers : List TaskRenderer) (s : Building) : Prop where
  split : s.entries = children ++ spacers.map .extra
  entered : List.Forall₂ (b.Entered false) b.steps children
  log : s.screen.log = log ++ records b.steps children
  autostart : s.autostart = b.steps.filterMap BuilderStep.autostartId
  spacer : ∀ r ∈ spacers, b.Child "" r
  count : spacers.length = if b.mode = .interactive ∧ autoIndent = true then 1 else 0

theorem Scripted.indent (h : b.Scripted log b.steps s)
    (indented : b.applyAutoIndent s = some next) :
    ∃ spacers, b.Built true log s.entries spacers next := by
  unfold applyAutoIndent at indented
  split at indented
  · rename_i mode
    obtain rfl := Option.some.inj indented
    exact ⟨[], by simp, h.entries, h.log, h.autostart, by simp, by simp [mode]⟩
  · rename_i mode _
    obtain rfl := Option.some.inj indented
    exact ⟨[_], rfl, h.entries, h.log, h.autostart, List.forall_mem_singleton.mpr
      ⟨rfl, rfl, rfl, fun plain => by simp [mode] at plain, fun _ => ⟨_, rfl⟩⟩, by simp [mode]⟩
  · cases indented

theorem build_built {autoIndent : Bool} {point : Option LayoutNode} {w : Screen}
    (built : b.build autoIndent point w = some s) :
    ∃ children spacers, b.Built autoIndent w.log children spacers s := by
  unfold build at built
  obtain ⟨mid, steps, indented⟩ := Option.bind_eq_some_iff.mp built
  have start : b.Scripted w.log [] ⟨[], [], point, w⟩ := ⟨.nil, by simp [records], rfl⟩
  have scripted := start.addSteps steps
  rw [List.nil_append] at scripted
  cases autoIndent with
  | true =>
    obtain ⟨spacers, built⟩ := scripted.indent indented
    exact ⟨_, spacers, built⟩
  | false =>
    obtain rfl := Option.some.inj indented
    exact ⟨_, [], by simp, scripted.entries, scripted.log, scripted.autostart, by simp, by simp⟩

end TaskBuilder

def stageIds (entries : List TaskEntry) : List String :=
  (entries.filterMap TaskEntry.stage?).map (·.id)

@[simp] theorem stageIds_nil : stageIds [] = [] := rfl

@[simp] theorem stageIds_extra (r : TaskRenderer) (entries : List TaskEntry) :
    stageIds (.extra r :: entries) = stageIds entries := rfl

@[simp] theorem stageIds_stage (s : Stage) (entries : List TaskEntry) :
    stageIds (.stage s :: entries) = s.id :: stageIds entries := rfl

@[simp] theorem stageIds_append (first second : List TaskEntry) :
    stageIds (first ++ second) = stageIds first ++ stageIds second := by
  simp [stageIds]

namespace Task

theorem forIds_append (op : Task → String → Screen → Bool × Task × Screen)
    (first second : List String) (t : Task) (w : Screen) :
    forIds op (first ++ second) t w =
      forIds op second (forIds op first t w).1 (forIds op first t w).2 :=
  List.foldl_append

theorem replaceStage_append {id : String} {s : Stage} (same : s.id = id) (s' : Stage)
    {before : List TaskEntry} (other : id ∉ stageIds before)
    (after : List TaskEntry) :
    replaceStage id s' (before ++ .stage s :: after) = before ++ .stage s' :: after := by
  induction before with
  | nil => simp [replaceStage, same]
  | cons entry before ih =>
    cases entry with
    | extra r =>
      rw [stageIds_extra] at other
      rw [List.cons_append, replaceStage, ih other]
      rfl
    | stage first =>
      rw [stageIds_stage, List.mem_cons, not_or] at other
      rw [List.cons_append, replaceStage, if_neg (Ne.symm other.1), ih other.2]
      rfl

structure Undecided (t : Task) : Prop where
  finished : t.finishedStages = ∅
  failed : t.failedStages = ∅
  unfinished : t.isFinished = false

theorem Undecided.runById {t : Task} (h : Undecided t) {s : Stage} {before after : List TaskEntry}
    (split : t.entries = before ++ .stage s :: after)
    (other : s.id ∉ stageIds before) (w : Screen) :
    (t.runById s.id none w).2 =
      ({ t with entries := before ++ .stage { s with startTime := some w.now.1 } :: after },
        s.renderer.run none w.now.2) := by
  have found : t.getStage s.id = some s := by
    have absent : (before.filterMap TaskEntry.stage?).find? (·.id = s.id) = none :=
      List.find?_eq_none.mpr fun first member same =>
        other (List.mem_map.mpr ⟨first, member, by simpa using same⟩)
    rw [getStage, stageIterator, split, List.filterMap_append, List.find?_append, absent]
    simp [TaskEntry.stage?]
  have kept := replaceStage_append (s := s) rfl { s with startTime := some w.now.1 } other after
  have stays := updateState_of_open
    { t with
      entries := before ++ .stage { s with startTime := some w.now.1 } :: after
      finishedStages := ∅
      failedStages := ∅ }
    (s.renderer.run none w.now.2) h.unfinished rfl (s := { s with startTime := some w.now.1 })
    (by simp [stageIterator, TaskEntry.stage?]) (by simp)
  simp only [Task.runById, onStage, found, split, kept, h.finished, h.failed, Finset.erase_empty,
    Stage.run]
  rw [stays]

end Task

namespace TaskBuilder

variable {b : TaskBuilder}

theorem runRecords_cons (step : BuilderStep) (steps : List BuilderStep) (entry : TaskEntry)
    (entries : List TaskEntry) :
    runRecords (step :: steps) (entry :: entries) =
      runRecords [step] [entry] ++ runRecords steps entries := by
  cases runs : step.autoRuns <;> simp [runRecords, runs]

theorem forIds_run {step : BuilderStep} {entry : TaskEntry} (entered : b.Entered false step entry)
    {t : Task} (undecided : t.Undecided) {passed rest : List TaskEntry}
    (other : ∀ id ∈ step.stageId.toList, id ∉ stageIds passed)
    (split : t.entries = passed ++ entry :: rest) (w : Screen) :
    ∃ started w', Task.forIds (fun t id w => t.runById id none w) step.autostartId.toList t w =
        ({ t with entries := passed ++ started :: rest }, w') ∧
      b.Entered true step started ∧ started.renderer = entry.renderer ∧
      stageIds [started] = step.stageId.toList ∧
      w'.log = w.log ++ runRecords [step] [started] ∧ w.layout.Quietly w'.layout := by
  have unchanged : t = { t with entries := passed ++ entry :: rest } := by rw [← split]
  cases step with
  | group header =>
    cases entry with
    | stage s => exact entered.elim
    | extra r =>
      exact ⟨.extra r, w, congrArg (·, w) unchanged, entered, rfl, rfl,
        by simp [runRecords, BuilderStep.autoRuns], .refl _⟩
  | stage id name autoRun =>
    cases entry with
    | extra r => exact entered.elim
    | stage s =>
      obtain ⟨rfl, still, child⟩ := entered
      cases autoRun with
      | false =>
        exact ⟨.stage s, w, congrArg (·, w) unchanged, ⟨rfl, still, child⟩, rfl, rfl,
          by simp [runRecords, BuilderStep.autoRuns], .refl _⟩
      | true =>
        have begun := undecided.runById split (other s.id (by simp [BuilderStep.stageId])) w
        refine ⟨.stage { s with startTime := some w.now.1 }, _, begun, ⟨rfl, rfl, child⟩, rfl, rfl,
          ?_, s.renderer.quietly_run w.now.2 none⟩
        simp [runRecords, BuilderStep.autoRuns, TaskRenderer.run, Screen.record,
          TaskEntry.renderer, Screen.now]

theorem forIds_runs {steps : List BuilderStep} {entries : List TaskEntry}
    (entered : List.Forall₂ (b.Entered false) steps entries)
    (distinct : (steps.filterMap BuilderStep.stageId).Nodup) {passed rest : List TaskEntry}
    (other : ∀ id ∈ steps.filterMap BuilderStep.stageId, id ∉ stageIds passed)
    {t : Task} (undecided : t.Undecided) (split : t.entries = passed ++ (entries ++ rest))
    (w : Screen) :
    ∃ started w', Task.forIds (fun t id w => t.runById id none w)
        (steps.filterMap BuilderStep.autostartId) t w =
          ({ t with entries := passed ++ (started ++ rest) }, w') ∧
      List.Forall₂ (b.Entered true) steps started ∧
      started.map (·.renderer) = entries.map (·.renderer) ∧
      w'.log = w.log ++ runRecords steps started ∧ w.layout.Quietly w'.layout := by
  induction entered generalizing passed t w with
  | nil =>
    refine ⟨[], w, ?_, .nil, rfl, by simp [runRecords], .refl _⟩
    rw [← split]
    rfl
  | @cons step entry steps entries first _ ih =>
    have cons (id : BuilderStep → Option String) :
        (step :: steps).filterMap id = (id step).toList ++ steps.filterMap id := by
      cases given : id step <;> simp [given]
    rw [cons] at distinct other
    obtain ⟨-, distinct, disjoint⟩ := List.nodup_append'.mp distinct
    obtain ⟨here, later⟩ := List.forall_mem_append.mp other
    obtain ⟨started, w₁, ran, entered, renderer, ids, log, quietly⟩ :=
      forIds_run first undecided here split w
    -- the stages to come differ from the one that has been passed
    have others : ∀ id ∈ steps.filterMap BuilderStep.stageId,
        id ∉ stageIds (passed ++ [started]) := by
      intro id member
      rw [stageIds_append, ids, List.mem_append, not_or]
      exact ⟨later id member, fun same => disjoint same member⟩
    obtain ⟨rest', w', runs, all, renderers, log', quietly'⟩ := ih distinct others
      (t := { t with entries := passed ++ started :: (entries ++ rest) })
      ⟨undecided.finished, undecided.failed, undecided.unfinished⟩ (by simp) w₁
    refine ⟨started :: rest', w', ?_, .cons entered all, by simp [renderer, renderers], ?_,
      quietly.trans quietly'⟩
    · have assoc : passed ++ (started :: rest' ++ rest) = passed ++ [started] ++ (rest' ++ rest) :=
        by simp
      rw [cons, Task.forIds_append, ran, assoc]
      exact runs
    · rw [log', log, List.append_assoc, ← runRecords_cons]

end TaskBuilder

namespace TaskLayout

/-- The bars of a layout differ and are older than the next one, and the anchor is one
of them. -/
structure WellFormed (l : TaskLayout) : Prop where
  nodup : l.multi.ordering.Nodup
  fresh : ∀ n ∈ l.multi.ordering, n.id < l.nodeCounter
  anchored : ∀ a, l.anchor = some a → a ∈ l.multi.ordering

structure RunAfter (l l' : TaskLayout) (bars : List LayoutNode) : Prop where
  place : ∃ front back, l.multi.ordering = front ++ back ∧
    l'.multi.ordering = front ++ bars ++ back ∧
    (∀ a, l.anchor = some a → front.getLast? = some a) ∧ (l.anchor = none → back = [])
  anchor : l'.anchor = bars.getLast?

variable {l : TaskLayout}

theorem WellFormed.insertAfter (h : l.WellFormed) {target : LayoutNode}
    (present : target ∈ l.multi.ordering) : (l.insertAfter target).2.WellFormed := by
  have perm : (l.insertAfter target).2.multi.ordering.Perm
      ((l.insertAfter target).1 :: l.multi.ordering) := spliceAfter_perm _ present
  refine ⟨?_, fun n member => ?_, fun a is_anchor => ?_⟩
  · rw [perm.nodup_iff]
    exact List.nodup_cons.mpr ⟨fun old => Nat.lt_irrefl _ (h.fresh _ old), h.nodup⟩
  · rcases List.mem_cons.mp (perm.mem_iff.mp member) with rfl | old
    · exact Nat.lt_succ_self _
    · exact Nat.lt_succ_of_lt (h.fresh n old)
  · rw [perm.mem_iff]
    by_cases same : l.anchor = some target
    · have moved : (l.insertAfter target).2.anchor = some (l.insertAfter target).1 := if_pos same
      obtain rfl := Option.some.inj (moved.symm.trans is_anchor)
      exact List.mem_cons_self
    · have kept : (l.insertAfter target).2.anchor = l.anchor := if_neg same
      exact List.mem_cons_of_mem _ (h.anchored a (kept.symm.trans is_anchor))

theorem insert_of_anchor {a : LayoutNode} (is_anchor : l.anchor = some a) :
    l.insert = l.insertAfter a := by
  simp [insert, insertAfter, is_anchor]

theorem WellFormed.insert (h : l.WellFormed) : l.insert.2.WellFormed := by
  cases is_anchor : l.anchor with
  | some a =>
    rw [insert_of_anchor is_anchor]
    exact h.insertAfter (h.anchored a is_anchor)
  | none =>
    have ordering : l.insert.2.multi.ordering = l.multi.ordering ++ [l.insert.1] := by
      simp [TaskLayout.insert, is_anchor, MultiProgress.add]
    have next : l.insert.1 ∉ l.multi.ordering := fun old => Nat.lt_irrefl _ (h.fresh _ old)
    refine ⟨?_, fun n member => ?_, fun a same => ?_⟩
    · rw [ordering, List.nodup_append']
      exact ⟨h.nodup, List.nodup_singleton _, by simpa using next⟩
    · rw [ordering] at member
      rcases List.mem_append.mp member with old | new
      · exact Nat.lt_succ_of_lt (h.fresh n old)
      · rw [List.mem_singleton.mp new]
        exact Nat.lt_succ_self _
    · rw [ordering, ← Option.some.inj same]
      simp [TaskLayout.insert]

theorem WellFormed.of_place {l' : TaskLayout} (h : l.WellFormed) (same : l'.place = l.place) :
    l'.WellFormed := by
  obtain ⟨ordering, anchor, counter⟩ := place_eq_iff.mp same
  exact ⟨ordering ▸ h.nodup, ordering ▸ counter ▸ h.fresh, anchor ▸ ordering ▸ h.anchored⟩

theorem RunAfter.of_place {l' l'' : TaskLayout} {bars : List LayoutNode} (h : l.RunAfter l' bars)
    (same : l''.place = l'.place) : l.RunAfter l'' bars := by
  obtain ⟨ordering, anchor, _⟩ := place_eq_iff.mp same
  exact ⟨ordering ▸ h.place, anchor ▸ h.anchor⟩

theorem WellFormed.runAfter_insert (h : l.WellFormed) : l.RunAfter l.insert.2 [l.insert.1] := by
  cases is_anchor : l.anchor with
  | none =>
    refine ⟨⟨l.multi.ordering, [], by simp, ?_, by simp [is_anchor], fun _ => rfl⟩, rfl⟩
    simp [TaskLayout.insert, is_anchor, MultiProgress.add]
  | some a =>
    obtain ⟨front, back, split⟩ := List.append_of_mem (h.anchored a is_anchor)
    have alone : a ∉ front := fun member => by
      have nodup := h.nodup
      rw [split, List.nodup_append'] at nodup
      exact nodup.2.2 member List.mem_cons_self
    refine ⟨⟨front ++ [a], back, by simp [split], ?_, ?_, by simp [is_anchor]⟩, rfl⟩
    · have placed : l.insert.2.multi.ordering =
          spliceAfter a l.insert.1 (front ++ a :: back) := by
        rw [← split, insert_of_anchor is_anchor]
        rfl
      rw [placed, spliceAfter_append alone]
      simp
    · intro a' same
      rw [is_anchor] at same
      rw [List.getLast?_concat, same]

theorem RunAfter.insertAfter {l' : TaskLayout} {bars : List LayoutNode} (h : l.RunAfter l' bars)
    (wellFormed : l'.WellFormed) {node : LayoutNode} (last : bars.getLast? = some node) :
    l.RunAfter (l'.insertAfter node).2 (bars ++ [(l'.insertAfter node).1]) := by
  obtain ⟨front, back, before, after, at_anchor, no_anchor⟩ := h.place
  obtain ⟨bars, rfl⟩ := List.getLast?_eq_some_iff.mp last
  have split : l'.multi.ordering = (front ++ bars) ++ node :: back := by simp [after]
  have alone : node ∉ front ++ bars := fun member => by
    have nodup := wellFormed.nodup
    rw [split, List.nodup_append'] at nodup
    exact nodup.2.2 member List.mem_cons_self
  refine ⟨⟨front, back, before, ?_, at_anchor, no_anchor⟩, ?_⟩
  · have placed : (l'.insertAfter node).2.multi.ordering =
        spliceAfter node (l'.insertAfter node).1 ((front ++ bars) ++ node :: back) := by
      rw [← split]
      rfl
    rw [placed, spliceAfter_append alone]
    simp
  · have moved : (l'.insertAfter node).2.anchor = some (l'.insertAfter node).1 :=
      if_pos (h.anchor.trans last)
    rw [moved, List.getLast?_concat]

end TaskLayout

namespace TaskLayout

def Complete (l : TaskLayout) : Prop := l.multi.ordering.Perm l.multi.inserted

variable {l l' : TaskLayout}

theorem Complete.wellFormed (complete : l.Complete) {live : List LayoutNode}
    (sound : Sound live l) : l.WellFormed where
  nodup := complete.nodup_iff.mpr sound.unique
  fresh n member := sound.fresh n (complete.mem_iff.mp member)
  anchored a is_anchor := complete.mem_iff.mpr (sound.known a (sound.anchor a is_anchor))

theorem Complete.insertAfter (h : l.Complete) {target : LayoutNode}
    (present : target ∈ l.multi.inserted) : (l.insertAfter target).2.Complete := by
  have inserted : (l.insertAfter target).2.multi.inserted =
      l.multi.inserted ++ [(l.insertAfter target).1] := by
    simp [TaskLayout.insertAfter, MultiProgress.insertAfter, MultiProgress.inserted,
      MultiCall.inserted]
  rw [Complete, inserted]
  exact ((spliceAfter_perm _ (h.mem_iff.mpr present)).trans (h.cons _)).trans
    (List.perm_append_singleton _ _).symm

theorem Complete.insert (h : l.Complete) {live : List LayoutNode} (sound : Sound live l) :
    l.insert.2.Complete := by
  cases is_anchor : l.anchor with
  | some a =>
    rw [insert_of_anchor is_anchor]
    exact h.insertAfter (sound.known a (sound.anchor a is_anchor))
  | none =>
    simp only [Complete, TaskLayout.insert, is_anchor, MultiProgress.add, MultiProgress.inserted,
      List.filterMap_append]
    exact h.append_right _

theorem Complete.calling (h : l.Complete) {calls : List MultiCall}
    (none_inserted : ∀ c ∈ calls, c.inserted = none) : (l.calling calls).Complete := by
  have inserted : (l.calling calls).multi.inserted = l.multi.inserted := by
    simp [TaskLayout.calling, MultiProgress.inserted, List.filterMap_append,
      List.filterMap_eq_nil_iff.mpr none_inserted]
  rw [Complete, inserted]
  exact h

theorem Complete.updateAnchorIfIn (h : l.Complete) (nodes : List LayoutNode)
    (fallback : LayoutNode) : (l.updateAnchorIfIn nodes fallback).Complete := by
  unfold TaskLayout.updateAnchorIfIn
  repeat' split
  all_goals exact h

theorem Complete.moves {before after : List Block} {b b' : Block} (h : l.Complete)
    (sound : Sound (liveNodes (before ++ b :: after)) l) (moved : Moves (b, l) (b', l')) :
    l'.Complete := by
  generalize start : (b, l) = s at moved
  generalize last : (b', l') = t at moved
  induction moved generalizing b' l' with
  | refl =>
    obtain ⟨rfl, rfl⟩ := Prod.mk.inj (start.trans last.symm)
    exact h
  | @tail mid _ path step ih =>
    obtain ⟨b₁, l₁⟩ := mid
    subst last
    subst start
    have complete := ih rfl
    have sound := sound.moves path
    have known {n : LayoutNode} (member : n ∈ b₁.nodes) : n ∈ l₁.multi.inserted :=
      sound.known n (by
        rw [liveNodes_split]
        exact List.mem_append_right _ (List.mem_append_left _ member))
    cases step with
    | quiet quiet =>
      obtain ⟨calls, quiet, rfl⟩ := quiet
      exact complete.calling fun c member => (quiet c member).1
    | headReport head =>
      exact complete.insertAfter (known (by simp [Block.nodes, head, TaskRenderingStrategy.nodes]))
    | entryReport entries =>
      exact complete.insertAfter (known (by
        simp [Block.nodes, Block.entryNodes, entries, TaskRenderingStrategy.nodes]))
    | append _ last =>
      exact complete.insertAfter (known (Block.mem_display.mp (List.mem_of_getLast? last)))
    | clear head =>
      refine (complete.calling fun c member => ?_).updateAnchorIfIn _ _
      obtain ⟨n, -, rfl⟩ := List.mem_map.mp member
      rfl

end TaskLayout

/-- What a start finds in a session: its layout is well formed. -/
theorem Session.wellFormed_of_run (clock : Nat → Instant) {ops : List SessionOp} {s : Session}
    (reached : Machine.run Session.step (Session.new clock) ops = some s) :
    s.screen.layout.WellFormed := by
  have inv := Machine.run_invariant (fun s => s.SoundSession ∧ s.screen.layout.Complete)
    (fun s op next h taken => ?_) ⟨Session.new_sound clock, .nil⟩ reached
  · exact inv.2.wellFormed inv.1.sound
  · refine ⟨Session.step_sound h.1 taken, ?_⟩
    have sound := h.1.sound
    cases creation : op.creates with
    | false =>
      obtain ⟨_, before, b, b', after, blocks, -, moves⟩ :=
        Session.step_calls h.1.tidy creation taken
      rw [blocks] at sound
      exact h.2.moves sound moves
    | true =>
      obtain ⟨_, b, -, moves⟩ := Session.step_creates h.1.tidy creation taken
      have inserted : Sound (liveNodes
          (s.blocks ++ ⟨.interactive s.screen.layout.insert.1 [], []⟩ :: []))
          s.screen.layout.insert.2 := by
        apply sound.insert.perm
        rw [liveNodes_split]
        exact List.perm_append_singleton _ _
      exact (h.2.insert sound).moves inserted moves

namespace TaskBuilder

structure Laid (l : TaskLayout) (head : LayoutNode) (nodes : List LayoutNode) (s : Building) :
    Prop where
  wellFormed : s.screen.layout.WellFormed
  run : l.RunAfter s.screen.layout (head :: nodes)
  point : s.insertionPoint = (head :: nodes).getLast?
  strategies : s.entries.map (·.renderer.strategy) = nodes.map (.interactive · [])

variable {b : TaskBuilder} {l : TaskLayout} {head node : LayoutNode} {nodes : List LayoutNode}
  {s next : Building}

theorem Laid.grow (h : Laid l head nodes s) (point : s.insertionPoint = some node)
    (grows : Grows s next node) :
    Laid l head (nodes ++ [(s.screen.layout.insertAfter node).1]) next := by
  have last : (head :: nodes).getLast? = some node := h.point.symm.trans point
  obtain ⟨front, back, -, after, -, -⟩ := h.run.place
  have present : node ∈ s.screen.layout.multi.ordering := by
    rw [after]
    exact List.mem_append_left _ (List.mem_append_right _ (List.mem_of_getLast? last))
  obtain ⟨entry, entries, strategy⟩ := grows.entries
  have same := grows.quietly.place
  refine ⟨(h.wellFormed.insertAfter present).of_place same,
    (h.run.insertAfter h.wellFormed last).of_place same, ?_, ?_⟩
  · rw [grows.point, ← List.cons_append, List.getLast?_concat]
  · rw [entries, List.map_append, h.strategies, List.map_append, List.map_singleton, strategy]
    rfl

theorem Laid.build (mode : b.mode = .interactive) {autoIndent : Bool} {point : Option LayoutNode}
    {w : Screen} (h : Laid l head [] ⟨[], [], point, w⟩)
    (built : b.build autoIndent point w = some next) : ∃ nodes, Laid l head nodes next := by
  have grown {s next : Building} (laid : ∃ nodes, Laid l head nodes s)
      (grows : ∀ node, s.insertionPoint = some node → Grows s next node) :
      ∃ nodes, Laid l head nodes next := by
    obtain ⟨nodes, laid⟩ := laid
    have point : s.insertionPoint = some ((head :: nodes).getLast (List.cons_ne_nil _ _)) := by
      rw [laid.point, List.getLast?_eq_getLast_of_ne_nil]
    exact ⟨_, laid.grow point (grows _ point)⟩
  unfold TaskBuilder.build at built
  obtain ⟨mid, steps, indented⟩ := Option.bind_eq_some_iff.mp built
  rw [Machine.foldlM_eq_run] at steps
  have after := Machine.run_invariant (fun s => ∃ nodes, Laid l head nodes s)
    (fun _ _ _ laid taken => grown laid fun _ point => addStep_grows mode point taken) ⟨[], h⟩ steps
  cases autoIndent with
  | true => exact grown after fun _ point => applyAutoIndent_grows mode point indented
  | false => exact Option.some.inj indented ▸ after

/-- The task that the script describes, on the screen that its creation leaves. -/
structure Faithful (b : TaskBuilder) (autoIndent : Bool) (w : Screen) (t : Task) (w' : Screen) :
    Prop where
  name : t.renderer.name = b.name
  style : t.renderer.style = b.style
  indentSpaces : t.renderer.indentSpaces = 0
  plain : b.mode = .plain → t.renderer.strategy = .plain ""
  entries : ∃ (children : List TaskEntry) (spacers : List TaskRenderer),
    t.entries = children ++ spacers.map .extra ∧
    List.Forall₂ (b.Entered true) b.steps children ∧ (∀ r ∈ spacers, b.Child "" r) ∧
    spacers.length = (if b.mode = .interactive ∧ autoIndent = true then 1 else 0) ∧
    w'.log = w.log ++ ⟨t.renderer, .title⟩ :: (records b.steps children ++
      runRecords b.steps children)
  undecided : t.Undecided
  placed : b.mode = .interactive → ∃ head nodes, t.renderer.strategy = .interactive head [] ∧
    t.entries.map (·.renderer.strategy) = nodes.map (.interactive · []) ∧
    w.layout.RunAfter w'.layout (head :: nodes)

theorem createHeadRenderer_head (b : TaskBuilder) (w : Screen) :
    (b.createHeadRenderer w).1.name = b.name ∧ (b.createHeadRenderer w).1.style = b.style ∧
      (b.createHeadRenderer w).1.indentSpaces = 0 ∧ (b.createHeadRenderer w).2.2.log = w.log ∧
      (b.mode = .plain → (b.createHeadRenderer w).1.strategy = .plain "") := by
  cases mode : b.mode <;> simp [createHeadRenderer, TaskRenderer.new, mode]

theorem log_placeAnchor (b : TaskBuilder) (point : Option LayoutNode) (w : Screen) :
    (b.placeAnchor point w).log = w.log := by
  unfold placeAnchor
  split <;> rfl

theorem records_congr (steps : List BuilderStep) {entries entries' : List TaskEntry}
    (same : entries.map (·.renderer) = entries'.map (·.renderer)) :
    records steps entries = records steps entries' := by
  have spelled (entries : List TaskEntry) : records steps entries =
      List.zipWith (fun step r => ⟨r, step.event⟩) steps (entries.map (·.renderer)) := by
    rw [List.zipWith_map_right]
    rfl
  rw [spelled, spelled, same]

theorem build_placed (mode : b.mode = .interactive) {autoIndent : Bool} {w : Screen}
    (wellFormed : w.layout.WellFormed)
    (built : b.build autoIndent (b.createHeadRenderer w).2.1
      ((b.createHeadRenderer w).1.title (b.createHeadRenderer w).2.2) = some s) :
    ∃ nodes : List LayoutNode,
      s.entries.map (·.renderer.strategy) = nodes.map (.interactive · []) ∧
      w.layout.RunAfter (b.placeAnchor s.insertionPoint s.screen).layout
        (w.layout.insert.1 :: nodes) := by
  obtain ⟨-, point, layout⟩ := createHeadRenderer_interactive mode w
  have titled : ((b.createHeadRenderer w).1.title (b.createHeadRenderer w).2.2).layout =
      w.layout.insert.2 := layout
  have first : Laid w.layout w.layout.insert.1 [] ⟨[], [], (b.createHeadRenderer w).2.1,
      (b.createHeadRenderer w).1.title (b.createHeadRenderer w).2.2⟩ :=
    ⟨titled ▸ wellFormed.insert, titled ▸ wellFormed.runAfter_insert, point, rfl⟩
  obtain ⟨nodes, laid⟩ := first.build mode built
  have anchored : (b.placeAnchor s.insertionPoint s.screen).layout = s.screen.layout := by
    have last := laid.run.anchor
    rw [← laid.point] at last
    obtain ⟨point, at_point⟩ : ∃ point, s.insertionPoint = some point :=
      ⟨_, laid.point.trans (List.getLast?_eq_getLast_of_ne_nil (List.cons_ne_nil _ _))⟩
    rw [at_point] at last
    simp only [placeAnchor, mode, at_point]
    rw [TaskLayout.setAnchor, ← last]
  exact ⟨nodes, laid.strategies, anchored ▸ laid.run⟩

/-- No unwrap of an insertion point fails, and the task is the one of the script. -/
theorem start_faithful (b : TaskBuilder)
    (distinct : (b.steps.filterMap BuilderStep.stageId).Nodup) (autoIndent : Bool) {w : Screen}
    (wellFormed : w.layout.WellFormed) :
    ∃ t w', b.start autoIndent w = some (t, w') ∧ b.Faithful autoIndent w t w' := by
  obtain ⟨name, style, indentSpaces, log, plain⟩ := createHeadRenderer_head b w
  obtain ⟨_, _, _, present⟩ := b.createHeadRenderer_spec w
  obtain ⟨s, built, _⟩ := build_progress autoIndent
    ((b.createHeadRenderer w).1.title (b.createHeadRenderer w).2.2) present
  obtain ⟨children, spacers, scripted⟩ := build_built built
  have fresh : ∀ id ∈ b.steps.filterMap BuilderStep.stageId, id ∉ stageIds [] := by simp
  obtain ⟨started, w', ran, entered, renderers, runs, quietly⟩ :=
    forIds_runs scripted.entered distinct fresh
      (t := (Task.new (b.createHeadRenderer w).1 s.entries
        (b.placeAnchor s.insertionPoint s.screen)).1)
      ⟨rfl, rfl, rfl⟩ scripted.split
      (Task.new (b.createHeadRenderer w).1 s.entries
        (b.placeAnchor s.insertionPoint s.screen)).2
  rw [← scripted.autostart] at ran
  refine ⟨_, w', by simp only [start, built]; exact congrArg some ran, ?_⟩
  refine ⟨name, style, indentSpaces, plain, ⟨started, spacers, rfl, entered, scripted.spacer,
    scripted.count, ?_⟩, ⟨rfl, rfl, rfl⟩, fun mode => ?_⟩
  · have before : (Task.new (b.createHeadRenderer w).1 s.entries
        (b.placeAnchor s.insertionPoint s.screen)).2.log =
        w.log ++ [⟨(b.createHeadRenderer w).1, .title⟩] ++ records b.steps children := by
      rw [← log]
      exact (log_placeAnchor b _ _).trans scripted.log
    rw [runs, before, records_congr b.steps renderers.symm]
    simp [Task.new]
  · obtain ⟨strategy, -, -⟩ := createHeadRenderer_interactive mode w
    obtain ⟨nodes, strategies, run⟩ := build_placed mode wellFormed built
    refine ⟨w.layout.insert.1, nodes, strategy, ?_, run.of_place quietly.place⟩
    have same : (started ++ spacers.map TaskEntry.extra).map TaskEntry.renderer =
        s.entries.map TaskEntry.renderer := by
      rw [scripted.split, List.map_append, List.map_append, renderers]
    have shown := congrArg (List.map TaskRenderer.strategy) same
    rw [List.map_map, List.map_map] at shown
    exact shown.trans strategies

end TaskBuilder

end KnotOps.Terminal
