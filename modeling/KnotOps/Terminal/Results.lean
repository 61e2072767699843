import KnotOps.Terminal.Children
import KnotOps.Terminal.RootOutcome

/-! What operations report and what the last ones leave behind.
The result of an operation on a stage id is that of the evaluation of the root
after it, which a finished root refuses even when the stage has been rendered.
The consuming operations end an open task by ending its stages; `skip` of a task
without stages has none to end.  `finish` of a sequence skips the stages that are
left, and the last of these completes the root before its own message is used. -/

namespace KnotOps.Terminal

open Machine

namespace Task

/-- The result tells whether the id names a stage, and a refused call leaves task
and screen as they are. -/
def Truthful (t : Task) (w : Screen) (id : String) (result : Bool × Task × Screen) : Prop :=
  (result.1 = true ↔ id ∈ t.collectStageIds) ∧ (result.1 = false → result.2 = (t, w))

theorem updateState_result (t : Task) (w : Screen) : (t.updateState w).1 = !t.isFinished := by
  unfold updateState
  split_ifs with finished
  · simp [finished]
  · simp [finished]
  · simp [finished]
  · simp [finished]

theorem onStage_truthful_iff (t : Task) (w : Screen) (id : String)
    (act : Stage → Screen → Stage × Screen) (finished failed : Finset String → Finset String) :
    t.Truthful w id (t.onStage id act finished failed w) ↔
      ¬ (t.isFinished = true ∧ id ∈ t.collectStageIds) := by
  cases found : t.getStage id with
  | none =>
    have unknown := t.getStage_eq_none.mp found
    simp [Truthful, onStage, found, unknown]
  | some stage =>
    have known := t.mem_of_getStage found
    simp only [Truthful, onStage, found, updateState_result, known, iff_true, and_true]
    cases t.isFinished <;> simp

end Task

/-- The results of the four operations on a stage id are truthful, unless the id
names a stage of a finished task. -/
theorem byId_truthful_iff (t : Task) (w : Screen) (id msg : String) (msg? : Option String)
    (report : ErrorReport) :
    (t.Truthful w id (t.runById id msg? w) ↔
      ¬ (t.isFinished = true ∧ id ∈ t.collectStageIds)) ∧
    (t.Truthful w id (t.okById id msg w) ↔
      ¬ (t.isFinished = true ∧ id ∈ t.collectStageIds)) ∧
    (t.Truthful w id (t.failById id report w) ↔
      ¬ (t.isFinished = true ∧ id ∈ t.collectStageIds)) ∧
    (t.Truthful w id (t.skipById id msg w) ↔
      ¬ (t.isFinished = true ∧ id ∈ t.collectStageIds)) :=
  ⟨t.onStage_truthful_iff .., t.onStage_truthful_iff .., t.onStage_truthful_iff ..,
    t.onStage_truthful_iff ..⟩

def deployTask (mode : RenderMode) : TaskBuilder :=
  ((TaskBuilder.new "deploy" .plain mode).withStage "db" "database" false).withStage
    "web" "web server" false

/-- After the failure of the first stage the second one is rendered, its id is put
among the finished ones, and the result is `false`. -/
theorem okById_refuses_known_stage :
    ∃ s, (deployTask .plain).start false (Screen.new id) = some s ∧
      let t := Task.step s (.failById "db" (ErrorReport.new "stopped"))
      "web" ∈ t.1.collectStageIds ∧
      (t.1.okById "web" "up" t.2).1 = false ∧
      (t.1.okById "web" "up" t.2).2.2.marks = t.2.marks ++ [(2, .success "up")] ∧
      "web" ∈ (t.1.okById "web" "up" t.2).2.1.finishedStages :=
  ⟨_, rfl, by decide⟩

namespace StatusMap

variable {ι : Type} [DecidableEq ι] {m : StatusMap ι}

def Listed (m : StatusMap ι) : Prop :=
  ∀ id, m.status id ≠ none → id ∈ m.ids

theorem put_listed (h : m.Listed) (id : ι) (s : Status) : (m.put id s).Listed := by
  by_cases known : m.Known id
  · rw [put_of_known known]
    intro other touched
    change (m.set id s).status other ≠ none at touched
    rw [set_status] at touched
    split_ifs at touched with same
    · exact same ▸ known.2
    · exact h other touched
  · rwa [put_of_unknown known]

theorem putAll_listed (h : m.Listed) (s : Status) (ids : List ι) : (m.putAll s ids).Listed :=
  exec_invariant Listed (fun _ id inv => put_listed inv id s) h ids

theorem step_listed {m : StatusMap String} (h : m.Listed) (op : TaskOp) : (m.step op).Listed := by
  cases op with
  | run msg =>
    change m.runAll.Listed
    unfold runAll
    split
    · exact putAll_listed h _ _
    · exact h
  | _ => exact put_listed h _ _

theorem put_ids (m : StatusMap ι) (id : ι) (s : Status) : (m.put id s).ids = m.ids := by
  by_cases known : m.Known id
  · rw [put_of_known known]
    rfl
  · rw [put_of_unknown known]

theorem putAll_ids (m : StatusMap ι) (s : Status) (ids : List ι) :
    (m.putAll s ids).ids = m.ids :=
  exec_invariant (fun n : StatusMap ι => n.ids = m.ids)
    (fun n id same => (n.put_ids id s).trans same) rfl ids

theorem put_keeps {P : Status → Prop} {s : Status} (new : P s) {id other : ι}
    (old : ∃ x ∈ m.status other, P x) : ∃ x ∈ (m.put id s).status other, P x := by
  by_cases known : m.Known id
  · rw [put_of_known known]
    change ∃ x ∈ (m.set id s).status other, P x
    rw [set_status]
    split_ifs
    · exact ⟨s, rfl, new⟩
    · exact old
  · rwa [put_of_unknown known]

def Passing (ids : List ι) (m : StatusMap ι) : Prop :=
  m.ids = ids ∧
    (m.outcome = .undecided ∨ m.outcome = .completed ∧ ∀ id ∈ ids, m.Finished id)

theorem put_passing {ids : List ι} {s : Status} (passes : s.Finished) (h : m.Passing ids)
    (id : ι) : (m.put id s).Passing ids := by
  have notFail : s ≠ .fail := fun fails => by rw [fails] at passes; exact passes
  obtain ⟨same, isOpen | ⟨completed, all⟩⟩ := h
  · refine ⟨(m.put_ids id s).trans same, ?_⟩
    by_cases known : m.Known id
    · rw [put_of_known known]
      by_cases every : ∀ x ∈ m.ids, (m.set id s).Finished x
      · exact .inr ⟨settle_all isOpen notFail every, same ▸ every⟩
      · push Not at every
        exact .inl (settle_some isOpen notFail every)
    · rw [put_of_unknown known]
      exact .inl isOpen
  · rw [put_of_unknown fun known => known.1 completed]
    exact ⟨same, .inr ⟨completed, all⟩⟩

theorem Passing.put {ids : List ι} {s : Status} (passes : s.Finished) (h : m.Passing ids) {id : ι}
    (member : id ∈ ids) : (m.put id s).Finished id := by
  by_cases known : m.Known id
  · rw [put_of_known known]
    change (m.set id s).Finished id
    rw [set_finished, if_pos rfl]
    exact passes
  · rw [put_of_unknown known]
    have completed : m.outcome = .completed := by
      by_contra live
      exact known ⟨live, h.1 ▸ member⟩
    exact (h.2.resolve_left (by simp [completed])).2 id member

theorem putAll_finished {s : Status} (passes : s.Finished) (consistent : m.Consistent)
    (isOpen : m.outcome = .undecided) :
    (∀ id ∈ m.ids, (m.putAll s m.ids).Finished id) ∧
      (m.ids ≠ [] → (m.putAll s m.ids).outcome = .completed) := by
  have start : m.Passing m.ids := ⟨rfl, .inl isOpen⟩
  have every : ∀ id ∈ m.ids, (m.putAll s m.ids).Finished id :=
    exec_each (Passing m.ids) (fun id n => n.Finished id) (fun _ id h => put_passing passes h id)
      (fun _ _ _ _ => put_keeps passes) (fun _ _ member h => h.put passes member) start
  refine ⟨every, fun nonempty => ?_⟩
  have last : (m.putAll s m.ids).Passing m.ids :=
    exec_invariant (Passing m.ids) (fun _ id h => put_passing passes h id) start m.ids
  refine (last.2.resolve_left fun undecided => ?_).1
  obtain ⟨id, member, unfinished⟩ :=
    (putAll_consistent consistent s m.ids).someOpen undecided (by rwa [last.1])
  exact unfinished (every id (last.1 ▸ member))

def Failing (ids : List ι) (m : StatusMap ι) : Prop :=
  m.ids = ids ∧ m.outcome ≠ .completed

theorem put_failing {ids : List ι} (h : m.Failing ids) (id : ι) :
    (m.put id .fail).Failing ids := by
  obtain ⟨same, live⟩ := h
  refine ⟨(m.put_ids id .fail).trans same, ?_⟩
  by_cases known : m.Known id
  · rw [put_of_known known]
    have kept : (m.set id .fail).outcome = m.outcome := rfl
    by_cases isOpen : m.outcome = .undecided
    · rw [settle_fail (kept.trans isOpen)]
      nofun
    · rw [settle_of_decided (kept ▸ isOpen)]
      exact live
  · rwa [put_of_unknown known]

theorem Failing.put {ids : List ι} (h : m.Failing ids) {id : ι} (member : id ∈ ids) :
    ∃ x ∈ (m.put id .fail).status id, x = .fail := by
  rw [put_of_known ⟨h.2, h.1 ▸ member⟩]
  change ∃ x ∈ (m.set id .fail).status id, x = .fail
  rw [set_status, if_pos rfl]
  exact ⟨_, rfl, rfl⟩

theorem putAll_failed (listed : m.Listed) (isOpen : m.outcome = .undecided) :
    (∀ id ∈ m.ids, (m.putAll .fail m.ids).status id = some .fail) ∧
      ∀ id, ¬ (m.putAll .fail m.ids).Finished id := by
  have failed : ∀ id ∈ m.ids, ∃ x ∈ (m.putAll .fail m.ids).status id, x = .fail :=
    exec_each (Failing m.ids) (fun id n => ∃ x ∈ n.status id, x = .fail)
      (fun _ id h => put_failing h id)
      (fun _ _ _ _ => put_keeps (P := (· = .fail)) rfl)
      (fun _ _ member h => h.put member) ⟨rfl, by simp [isOpen]⟩
  have status : ∀ id ∈ m.ids, (m.putAll .fail m.ids).status id = some .fail := fun id member => by
    obtain ⟨x, isStatus, rfl⟩ := failed id member
    exact isStatus
  refine ⟨status, fun id finished => ?_⟩
  obtain ⟨x, isStatus, passes⟩ := finished
  have member : id ∈ m.ids := by
    rw [← m.putAll_ids .fail m.ids]
    apply putAll_listed listed
    rw [isStatus]
    nofun
  rw [status id member] at isStatus
  rw [← Option.some.inj isStatus] at passes
  exact passes

end StatusMap

namespace TaskBuilder

theorem statusMap_listed (b : TaskBuilder) (ops : List TaskOp) : (b.statusMap ops).Listed :=
  exec_invariant StatusMap.Listed (fun _ op inv => StatusMap.step_listed inv op)
    (StatusMap.putAll_listed (fun _ touched => absurd rfl touched) _ _) ops

end TaskBuilder

def TaskEnd.Sorts (ids : List String) (t : Task) : TaskEnd → Prop
  | .ok _ | .skip _ => ∀ id ∈ ids, id ∈ t.finishedStages
  | .fail _ => (∀ id ∈ ids, id ∈ t.failedStages) ∧ t.finishedStages = ∅

/-- How many error reports it may leave, under the root. -/
def TaskEnd.rootReports : TaskEnd → Nat
  | .ok _ | .skip _ => 0
  | .fail _ => 1

/-- The task is finished, with one more terminal record on its root, and every
stage id sorted.  All bars of its entries are cleared, and all bars that were
inserted meanwhile but the report under the root. -/
structure TaskEnd.Finishes (e : TaskEnd) (s final : Task × Screen) : Prop where
  isFinished : final.1.isFinished = true
  root : s.2.terminals s.1.renderer.key < final.2.terminals s.1.renderer.key
  entries : final.1.entries = []
  bars : s.1.block.entryNodes ⊆ final.2.layout.multi.cleared
  reports : ∃ own, own.length ≤ e.rootReports ∧
    final.1.block.head.nodes = s.1.block.head.nodes ++ own ∧
    ∀ bar ∈ s.2.layout.newBars final.2.layout,
      bar ∈ final.2.layout.multi.cleared ∨ bar ∈ own
  stages : e.Sorts s.1.collectStageIds final.1

def TaskEnd.SkipsNothing (t : Task) : TaskEnd → Prop
  | .skip _ => t.collectStageIds = []
  | _ => False

instance (t : Task) : DecidablePred (TaskEnd.SkipsNothing t)
  | .skip _ => inferInstanceAs (Decidable (_ = _))
  | .ok _ => instDecidableFalse
  | .fail _ => instDecidableFalse

namespace Tracks

variable {head : Nat} {old : List Mark} {t : Task} {w : Screen} {m : StatusMap String}

theorem finishes_forIds (h : Tracks head old (t, w) m) (consistent : m.Consistent)
    (isOpen : m.outcome = .undecided) (nonempty : t.collectStageIds ≠ [])
    {op : Task → String → Screen → Bool × Task × Screen} {status : Status}
    (passes : status.Finished)
    (follows : ∀ t w m id, Tracks head old (t, w) m → m.Consistent →
      Tracks head old (op t id w).2 (m.put id status))
    (keeps : ∀ t w id, Task.Keeps (t, w) (op t id w).2)
    (renderer : ∀ t w id, (op t id w).2.1.renderer = t.renderer) {e : TaskEnd}
    (sorts : ∀ t' : Task, (∀ id ∈ t.collectStageIds, id ∈ t'.finishedStages) →
      e.Sorts t.collectStageIds t') :
    e.Finishes (t, w) (Task.forIds op t.collectStageIds t w) := by
  have key : t.renderer.key = head := h.key
  have ids : t.collectStageIds = m.ids := h.ids (by simp [isOpen])
  obtain ⟨every, completes⟩ := StatusMap.putAll_finished passes consistent isOpen
  have before := h.terminals
  have last := (forIds follows h consistent m.ids).1
  have kept : Task.Keeps (t, w) (Task.forIds op m.ids t w) := Task.Keeps.forIds keeps m.ids
  have same : (Task.forIds op m.ids t w).1.renderer = t.renderer :=
    Task.renderer_forIds renderer m.ids
  obtain ⟨new, inserts, held⟩ := kept.bars
  rw [ids] at nonempty ⊢
  have completed := completes nonempty
  have entries := last.entries completed
  have after := last.terminals
  have cleared : ∀ bar ∈ t.block.entryNodes ++ new,
      bar ∈ (Task.forIds op m.ids t w).2.layout.multi.cleared := fun bar member => by
    simpa [Task.block, Block.entryNodes, entries] using held bar member
  refine ⟨last.isFinished.mpr (by simp [completed]), ?_, entries,
    fun bar member => cleared bar (List.mem_append_left _ member),
    ⟨[], Nat.zero_le _, by simp [Task.block, same], fun bar member => ?_⟩,
    sorts _ fun id member => (last.finished id).mpr (every id (ids ▸ member))⟩
  · rw [isOpen] at before
    rw [completed] at after
    change Screen.terminals w t.renderer.key < Screen.terminals _ t.renderer.key
    rw [key, after, before]
    simp
  · exact .inl (cleared bar (List.mem_append_right _ (inserts.newBars member)))

theorem finishes_ok (h : Tracks head old (t, w) m) (consistent : m.Consistent)
    (unfinished : t.isFinished = false) (msg : String) :
    (TaskEnd.ok msg).Finishes (t, w) (t.performOk msg w) := by
  have isOpen := h.undecided unfinished
  unfold Task.performOk
  rw [unfinished, if_neg Bool.false_ne_true]
  by_cases empty : t.collectStageIds.isEmpty
  · simp only [if_pos empty]
    have none_left : t.collectStageIds = [] := List.isEmpty_iff.mp empty
    have first := t.setCompleted_fst w msg unfinished
    have inserts := (t.ends_setCompleted w unfinished msg).layout
    refine ⟨by rw [first], ?_, by rw [first], t.cleared_setCompleted w unfinished msg,
      ⟨[], Nat.zero_le _, by simp [Task.block, first], fun _ member => .inr (inserts.newBars member)⟩,
      ?_⟩
    · change Screen.terminals w t.renderer.key < Screen.terminals _ t.renderer.key
      rw [Screen.terminals, Screen.terminals,
        Screen.marksOf_eq_append (t.marks_setCompleted w msg unfinished)]
      simp [Mark.terminal]
    · intro id member
      rw [none_left] at member
      cases member
  · simp only [if_neg empty]
    exact h.finishes_forIds consistent isOpen (fun none_left => empty (by simp [none_left]))
      (show Status.ok.Finished from trivial)
      (fun _ _ _ id h consistent => h.okById consistent id msg)
      (fun _ _ id => Task.keeps_onStage (Task.okById_calm msg).toStageAct id _ _)
      (fun _ _ id => Task.renderer_onStage id _ _ _) fun _ sorted => sorted

theorem finishes_skip (h : Tracks head old (t, w) m) (consistent : m.Consistent)
    (unfinished : t.isFinished = false) (nonempty : t.collectStageIds ≠ []) (msg : String) :
    (TaskEnd.skip msg).Finishes (t, w) (t.performSkip msg w) := by
  unfold Task.performSkip
  rw [unfinished, if_neg Bool.false_ne_true]
  exact h.finishes_forIds consistent (h.undecided unfinished) nonempty
    (show Status.skip.Finished from trivial)
    (fun _ _ _ id h consistent => h.skipById consistent id msg)
    (fun _ _ id => Task.keeps_onStage (Task.skipById_calm msg).toStageAct id _ _)
    (fun _ _ id => Task.renderer_onStage id _ _ _) fun _ sorted => sorted

theorem finishes_fail (h : Tracks head old (t, w) m) (consistent : m.Consistent)
    (listed : m.Listed) (unfinished : t.isFinished = false) (error : ErrorReport) :
    (TaskEnd.fail error).Finishes (t, w) (t.performFail error w) := by
  have key : t.renderer.key = head := h.key
  have isOpen := h.undecided unfinished
  have ids : t.collectStageIds = m.ids := h.ids (by simp [isOpen])
  obtain ⟨allFailed, noneFinished⟩ := StatusMap.putAll_failed listed isOpen
  have before := h.terminals
  have last := (forIds (fun _ _ _ id h consistent => h.failById consistent id error) h
    consistent m.ids).1
  have keeps : Task.Keeps (t, w) (Task.forIds (fun t id w => t.failById id error w) m.ids t w) :=
    Task.Keeps.forIds
      (fun _ _ id => Task.keeps_onStage (Task.failById_calm error).toStageAct id _ _) m.ids
  have same : (Task.forIds (fun t id w => t.failById id error w) m.ids t w).1.renderer =
      t.renderer :=
    Task.renderer_forIds (fun _ _ id => Task.renderer_onStage id _ _ _) m.ids
  unfold Task.performFail
  rw [unfinished, if_neg Bool.false_ne_true, ids]
  revert last keeps same
  generalize Task.forIds (fun t id w => t.failById id error w) m.ids t w = s
  intro last keeps same
  obtain ⟨new, inserts, held⟩ := keeps.bars
  obtain ⟨own, single, nodes, ends⟩ := s.1.ends_setFailedAndClear s.2 error
  have cleared : ∀ bar ∈ t.block.entryNodes ++ new,
      bar ∈ (s.1.setFailedAndClear error s.2).2.layout.multi.cleared := fun bar member =>
    (held bar member).elim (fun entry => s.1.cleared_setFailedAndClear s.2 error entry)
      fun old => ends.layout.cleared old
  have after := last.terminals
  refine ⟨rfl, ?_, rfl, fun bar member => cleared bar (List.mem_append_left _ member),
    ⟨own, single, ?_, fun bar member => ?_⟩, fun id member => ?_, ?_⟩
  · change Screen.terminals w t.renderer.key < Screen.terminals _ t.renderer.key
    rw [isOpen] at before
    rw [key, Screen.terminals, Screen.terminals,
      Screen.marksOf_eq_append (s.1.marks_setFailedAndClear s.2 error), last.key]
    rw [Screen.terminals] at after before
    rw [before, List.countP_append, after, if_pos rfl]
    have last : ([(head, Mark.fail)].filter (·.1 = head)).map Prod.snd = [.fail] := by simp
    rw [last]
    exact Nat.lt_succ_of_le (Nat.le_add_right _ _)
  · rw [same] at nodes
    exact nodes
  · exact (List.mem_append.mp ((inserts.trans ends.layout).newBars member)).imp_left
      fun old => cleared bar (List.mem_append_right _ old)
  · exact (last.failed id).mpr (allFailed id (ids ▸ member))
  · apply Finset.eq_empty_of_forall_notMem
    exact fun id finished => noneFinished id ((last.finished id).mp finished)

theorem consume_finishes (h : Tracks head old (t, w) m) (consistent : m.Consistent)
    (listed : m.Listed) (unfinished : t.isFinished = false) (e : TaskEnd) :
    e.Finishes (t, w) (Task.consume (t, w) e) ↔ ¬ e.SkipsNothing t := by
  cases e with
  | ok msg => exact iff_of_true (h.finishes_ok consistent unfinished msg) not_false
  | fail error => exact iff_of_true (h.finishes_fail consistent listed unfinished error) not_false
  | skip msg =>
    by_cases empty : t.collectStageIds = []
    · have same : Task.consume (t, w) (.skip msg) = (t, w) := by
        simp [Task.consume, Task.performSkip, unfinished, empty, Task.forIds]
      rw [same]
      refine iff_of_false (fun finishes => ?_) (not_not_intro empty)
      have finished : t.isFinished = true := finishes.isFinished
      rw [unfinished] at finished
      cases finished
    · exact iff_of_true (h.finishes_skip consistent unfinished empty msg) empty

end Tracks

/-- Each consuming operation finishes an open task, unless it is a `skip` of a task
without stages. -/
theorem consume_finishes_iff (b : TaskBuilder) (autoIndent : Bool) (w : Screen) :
    ∃ start, b.start autoIndent w = some start ∧ ∀ ops : List TaskOp,
      let s := exec Task.step start ops
      s.1.isFinished = false → ∀ e : TaskEnd,
        e.Finishes s (Task.consume s e) ↔ ¬ e.SkipsNothing s.1 := by
  obtain ⟨start, started, tracks⟩ := b.start_tracks autoIndent w
  refine ⟨start, started, fun ops unfinished e => ?_⟩
  exact (tracks ops).consume_finishes (b.statusMap_consistent ops) (b.statusMap_listed ops)
    unfinished e

/-- A task with a group and no stages stays open after `skip`. -/
theorem performSkip_leaves_task_open :
    ∃ s, ((TaskBuilder.new "deploy" .plain .plain).withGroup (some "servers")).start false
        (Screen.new id) = some s ∧
      s.1.isFinished = false ∧
      (Task.consume s (.skip "nothing to do")).1.isFinished = false ∧
      (Task.consume s (.skip "nothing to do")).2.marks = [] :=
  ⟨_, rfl, by decide⟩

/-- The root is completed, with one success record that carries the message. -/
def TaskSequence.Reports (msg : String) (s s' : TaskSequence × Screen) : Prop :=
  s'.1.inner.isFinished = true ∧
    s'.2.marksOf s.1.inner.renderer.key =
      s.2.marksOf s.1.inner.renderer.key ++ [.success msg]

theorem Sequential.Strict.exhausted_iff {m : Sequential} {autostart : Bool}
    (strict : m.Strict autostart) (isOpen : m.root = none) :
    m.position < m.stages ↔ m.stages ≠ 0 := by
  refine ⟨fun inside => by omega, fun some_stages => ?_⟩
  have notLast : ¬ m.position = m.stages := fun last => by
    have decided := (strict.exhausted (by omega)).mpr last
    simp [isOpen] at decided
  have bound := strict.bound
  omega

theorem Follows.finish_reports_iff {key : Part → Nat} {w : Screen} {s : TaskSequence × Screen}
    {m : Sequential} {autostart : Bool} (h : Follows key w.marks s m)
    (strict : m.Strict autostart)
    (injective : ∀ p q : Part, p.Valid m.stages → q.Valid m.stages → key p = key q → p = q)
    (unfinished : s.1.inner.isFinished = false) (msg : String) :
    ∃ s', s.1.finish msg s.2 = some s' ∧
      (TaskSequence.Reports msg s s' ↔ m.stages = 0 ∨ msg = "success") := by
  have isOpen : m.root = none := by
    have shown := h.inner.isFinished
    rw [unfinished] at shown
    simpa using shown.symm
  obtain ⟨s', finished, follows⟩ := h.finish isOpen strict.bound msg
  have strict' := Sequential.finish_strict strict isOpen msg
  have before := h.marksOf_part strict injective .head trivial
  have after := follows.marksOf_part strict' injective .head trivial
  rw [strict.head, isOpen] at before
  rw [strict'.head] at after
  have closed : s'.1.inner.isFinished = true := by rw [follows.inner.isFinished]; rfl
  have head : s.1.inner.renderer.key = key .head := h.inner.head
  refine ⟨s', finished, ?_⟩
  rw [TaskSequence.Reports, head, before, after, and_iff_right closed]
  by_cases inside : m.position < m.stages
  · have some_stages := (strict.exhausted_iff isOpen).mp inside
    simp [Sequential.finish, inside, some_stages, eq_comm]
  · have noStages : m.stages = 0 := by
      by_contra some_stages
      exact inside ((strict.exhausted_iff isOpen).mpr some_stages)
    simp [Sequential.finish, noStages]

/-- `finish` reports its message on an open root exactly when the sequence has no
stages, or the message is the one that the last stage would have reported. -/
theorem finish_reports_message_iff (name : String) (style : TaskStyle) (mode : RenderMode)
    (steps : List SequenceStep) (autostart autoIndent : Bool) (w : Screen) :
    ∃ start, ((TaskSequenceBuilder.new (TaskBuilder.new name style mode)).chain steps).launch
        autostart autoIndent w = some start ∧
      ∀ ops, ∃ s, Machine.run TaskSequence.step start ops = some s ∧
        (s.1.inner.isFinished = false → ∀ msg, ∃ s', s.1.finish msg s.2 = some s' ∧
          (TaskSequence.Reports msg s s' ↔
            steps.countP SequenceStep.isStage = 0 ∨ msg = "success")) := by
  obtain ⟨registered, counter⟩ :=
    TaskSequenceBuilder.chain_registered (TaskSequenceBuilder.new_registered name style mode) steps
  obtain ⟨start, key, launched, injective, -, follows⟩ :=
    TaskSequenceBuilder.launch_follows registered autostart autoIndent w
  have count : _ = steps.countP SequenceStep.isStage := counter.trans (Nat.zero_add _)
  rw [count] at follows injective
  refine ⟨start, launched, fun ops => ?_⟩
  obtain ⟨s, reached, last, strict⟩ := follows.run (Sequential.start_strict _ autostart) ops
  have stages := (Sequential.exec_stages _ ops).trans (Sequential.start_stages
    (steps.countP SequenceStep.isStage) autostart)
  refine ⟨s, reached, fun unfinished msg => ?_⟩
  obtain ⟨s', finished, reports⟩ :=
    last.finish_reports_iff strict (by rw [stages]; exact injective) unfinished msg
  rw [stages] at reports
  exact ⟨s', finished, reports⟩

/-- One stage is left, and its completion is what the root shows. -/
theorem finish_reports_success :
    ∃ s s', ((TaskSequenceBuilder.new (TaskBuilder.new "deploy" .plain .plain)).chain
        [.stage "build"]).launch true false (Screen.new id) = some s ∧
      s.1.inner.isFinished = false ∧
      s.1.finish "nothing to do" s.2 = some s' ∧
      s'.2.marksOf s.1.inner.renderer.key = [.success "success"] :=
  ⟨_, _, rfl, by decide, rfl, by decide⟩

end KnotOps.Terminal
