import KnotOps.Terminal.Results

/-! A finished task has nothing running.
No entry that was set running is still active and no bar of one ticks once the
root is finished, and in plain mode no start follows the terminal record of the
root.  Completion clears the stages and failure finishes them, but a failed task
keeps its stages callable, and `run_by_id` sets one of them running without a
look at the root. -/

namespace KnotOps.Terminal

open Machine

def NoStartAfter {κ : Type} (head : κ) (marks : List (κ × Mark)) : Prop :=
  marks.Pairwise fun earlier later =>
    earlier.1 = head → earlier.2.terminal = true → later.2.terminal = true

namespace NoStartAfter

variable {κ : Type} {head : κ} {marks added : List (κ × Mark)}

theorem of_terminal (terminal : ∀ r ∈ marks, r.2.terminal = true) : NoStartAfter head marks :=
  List.pairwise_of_forall_mem_list fun _ _ later member _ _ => terminal later member

theorem of_other (other : ∀ r ∈ marks, r.1 = head → r.2.terminal = false) :
    NoStartAfter head marks :=
  List.pairwise_of_forall_mem_list fun earlier member _ _ same terminal => by
    simp [other earlier member same] at terminal

theorem append_terminal (terminal : ∀ r ∈ added, r.2.terminal = true) :
    NoStartAfter head (marks ++ added) ↔ NoStartAfter head marks := by
  rw [NoStartAfter, List.pairwise_append]
  exact ⟨fun h => h.1, fun h =>
    ⟨h, of_terminal terminal, fun _ _ later member _ _ => terminal later member⟩⟩

theorem append_other (other : ∀ r ∈ marks, r.1 = head → r.2.terminal = false)
    (quiet : NoStartAfter head added) : NoStartAfter head (marks ++ added) := by
  rw [NoStartAfter, List.pairwise_append]
  refine ⟨of_other other, quiet, fun earlier member _ _ same terminal => ?_⟩
  simp [other earlier member same] at terminal

theorem not_append_run {key : κ} {msg : Option String}
    (ended : ∃ r ∈ marks, r.1 = head ∧ r.2.terminal = true) :
    ¬ NoStartAfter head (marks ++ [(key, .run msg)]) := by
  obtain ⟨r, member, same, terminal⟩ := ended
  rw [NoStartAfter, List.pairwise_append]
  rintro ⟨-, -, cross⟩
  simpa [Mark.terminal] using cross r member _ (List.mem_singleton_self _) same terminal

end NoStartAfter

namespace Screen

def newMarks (w w' : Screen) : List (Nat × Mark) :=
  w'.marks.drop w.marks.length

def Extends (P : Nat × Mark → Prop) (w w' : Screen) : Prop :=
  ∃ added, w'.marks = w.marks ++ added ∧ ∀ r ∈ added, P r

variable {P Q : Nat × Mark → Prop} {w w' w'' : Screen}

theorem newMarks_eq {added : List (Nat × Mark)} (h : w'.marks = w.marks ++ added) :
    newMarks w w' = added := by
  rw [newMarks, h, List.drop_left]

theorem Extends.of_eq (h : w'.marks = w.marks) : Extends P w w' :=
  ⟨[], by simp [h], by simp⟩

theorem Extends.of_append {added : List (Nat × Mark)} (h : w'.marks = w.marks ++ added)
    (all : ∀ r ∈ added, P r) : Extends P w w' :=
  ⟨added, h, all⟩

theorem Extends.trans (first : Extends P w w') (second : Extends P w' w'') :
    Extends P w w'' := by
  obtain ⟨added, eq, all⟩ := first
  obtain ⟨more, eq', all'⟩ := second
  refine ⟨added ++ more, by rw [eq', eq, List.append_assoc], fun r member => ?_⟩
  exact (List.mem_append.mp member).elim (all r) (all' r)

theorem Extends.imp (implies : ∀ r, P r → Q r) (h : Extends P w w') : Extends Q w w' := by
  obtain ⟨added, eq, all⟩ := h
  exact ⟨added, eq, fun r member => implies r (all r member)⟩

theorem Extends.noStartAfter_iff {head : Nat} (first : Extends P w w')
    (second : Extends (·.2.terminal = true) w' w'') :
    NoStartAfter head (newMarks w w'') ↔ NoStartAfter head (newMarks w w') := by
  obtain ⟨added, eq, -⟩ := first
  obtain ⟨more, eq', terminal⟩ := second
  rw [newMarks_eq eq, newMarks_eq (show w''.marks = w.marks ++ (added ++ more) by
    rw [eq', eq, List.append_assoc])]
  exact NoStartAfter.append_terminal terminal

end Screen

namespace Task

variable (t : Task) (w : Screen)

theorem extends_setCompleted (msg : String) :
    w.Extends (·.2.terminal = true) (t.setCompleted msg w).2 := by
  cases finished : t.isFinished with
  | true =>
    rw [t.setCompleted_of_finished w msg finished]
    exact .of_eq rfl
  | false => exact .of_append (t.marks_setCompleted w msg finished) (by simp [Mark.terminal])

theorem extends_updateState : w.Extends (·.2.terminal = true) (t.updateState w).2.2 := by
  unfold updateState
  split_ifs
  · exact .of_eq rfl
  · exact .of_append (t.marks_setFailedAndFreeze w) (by simp [Mark.terminal])
  · exact t.extends_setCompleted w "success"
  · exact .of_eq rfl

variable {t w}

theorem extends_onStage {id : String} {status : Status} {mark : Mark}
    {act : Stage → Screen → Stage × Screen} {finished failed : Finset String → Finset String}
    (op : StageOp id status mark act finished failed) :
    w.Extends (fun r => r.2 = mark ∨ r.2.terminal = true)
      (t.onStage id act finished failed w).2.2 := by
  cases found : t.getStage id with
  | none =>
    simp only [onStage, found]
    exact .of_eq rfl
  | some stage =>
    simp only [onStage, found]
    have acted : w.Extends (fun r => r.2 = mark ∨ r.2.terminal = true) (act stage w).2 :=
      .of_append (op.marks_act stage w) (by simp)
    exact acted.trans ((extends_updateState _ _).imp fun _ => .inr)

theorem extends_terminal {id : String} {status : Status} {mark : Mark}
    {act : Stage → Screen → Stage × Screen} {finished failed : Finset String → Finset String}
    (op : StageOp id status mark act finished failed) (terminal : mark.terminal = true) :
    w.Extends (·.2.terminal = true) (t.onStage id act finished failed w).2.2 :=
  (extends_onStage op).imp fun _ shown => shown.elim (fun same => same ▸ terminal) fun h => h

theorem extends_forIds {P : Nat × Mark → Prop} {op : Task → String → Screen → Bool × Task × Screen}
    (extend : ∀ (t : Task) (w : Screen) (id : String), w.Extends P (op t id w).2.2)
    (ids : List String) : w.Extends P (forIds op ids t w).2 :=
  exec_invariant (fun s : Task × Screen => w.Extends P s.2)
    (fun s id before => before.trans (extend s.1 s.2 id)) (.of_eq rfl) ids

theorem runById_of_finished (w : Screen) {id : String} (msg : Option String)
    (finished : t.isFinished = true) (known : id ∈ t.collectStageIds) :
    ∃ key, (t.runById id msg w).2.2.marks = w.marks ++ [(key, .run msg)] := by
  cases found : t.getStage id with
  | none => exact absurd known (t.getStage_eq_none.mp found)
  | some stage =>
    refine ⟨stage.renderer.key, ?_⟩
    simp only [runById, onStage, found, updateState, finished, if_true]
    exact (runById_op id msg).marks_act stage w

theorem active_runById (w : Screen) {id : String} (msg : Option String)
    (finished : t.isFinished = true) (known : id ∈ t.collectStageIds) :
    ∃ key ∈ t.entryKeys, (t.runById id msg w).2.2.Active key := by
  cases found : t.getStage id with
  | none => exact absurd known (t.getStage_eq_none.mp found)
  | some stage =>
    obtain ⟨before, after, split, -⟩ := replaceStage_split found
    refine ⟨stage.renderer.key, by simp [entryKeys, split, TaskEntry.renderer], ?_⟩
    simp only [runById, onStage, found, updateState, finished, if_true]
    have turned := ((w.now.2.record stage.renderer (.run msg))).active_turn stage.renderer
    unfold Screen.Active at turned ⊢
    rwa [Stage.run, TaskRenderer.run, TaskRenderer.activity_onBar]

theorem runById_of_unknown {id : String} {msg : Option String} (unknown : id ∉ t.collectStageIds) :
    (t.runById id msg w).2 = (t, w) := by
  simp only [runById, onStage, t.getStage_eq_none.mpr unknown]

/-- A stage of a finished task is not started again. -/
def StartsOpen (s : Task × Screen) : TaskOp → Prop
  | .runById id _ => ¬ (s.1.isFinished = true ∧ id ∈ s.1.collectStageIds)
  | _ => True

instance (s : Task × Screen) : DecidablePred (StartsOpen s)
  | .runById _ _ => inferInstanceAs (Decidable (¬ _))
  | .okById _ _ | .failById _ _ | .skipById _ _ | .run _ => instDecidableTrue

end Task

namespace StatusMap

variable {ι : Type} [DecidableEq ι] {m : StatusMap ι}

theorem put_running_outcome (isOpen : m.outcome = .undecided) (id : ι) :
    (m.put id .running).outcome = .undecided := by
  by_cases known : m.Known id
  · rw [put_of_known known]
    refine settle_some isOpen nofun ⟨id, known.2, ?_⟩
    rw [set_finished, if_pos rfl]
    exact not_false
  · rwa [put_of_unknown known]

theorem putAll_running_outcome (isOpen : m.outcome = .undecided) (ids : List ι) :
    (m.putAll .running ids).outcome = .undecided :=
  exec_invariant (fun n : StatusMap ι => n.outcome = .undecided)
    (fun _ id isOpen => put_running_outcome isOpen id) isOpen ids

end StatusMap

structure Following (w : Screen) (s : Task × Screen) (m : StatusMap String) : Prop where
  tracks : Tracks w.renderers (w.marksOf w.renderers) s m
  consistent : m.Consistent
  history : w.Extends (fun _ => True) s.2

namespace Following

variable {w : Screen} {s : Task × Screen} {m : StatusMap String}

theorem ended_iff (h : Following w s m) :
    (∃ r ∈ w.newMarks s.2, r.1 = w.renderers ∧ r.2.terminal = true) ↔
      s.1.isFinished = true := by
  obtain ⟨added, eq, -⟩ := h.history
  have root := h.tracks.root
  rw [Screen.marksOf_eq_append eq, List.append_cancel_left_eq] at root
  rw [Screen.newMarks_eq eq, h.tracks.isFinished]
  constructor
  · rintro ⟨r, member, same, -⟩ isOpen
    have mark : r.2 ∈ (added.filter (·.1 = w.renderers)).map Prod.snd :=
      List.mem_map_of_mem (List.mem_filter.mpr ⟨member, by simpa using same⟩)
    rw [root, isOpen] at mark
    cases mark
  · intro decided
    have some_mark : ∃ mark ∈ m.outcome.marks, mark.terminal = true := by
      cases outcome : m.outcome with
      | undecided => exact absurd outcome decided
      | completed => exact ⟨_, List.mem_singleton_self _, rfl⟩
      | failed => exact ⟨_, List.mem_singleton_self _, rfl⟩
    obtain ⟨mark, inRoot, terminal⟩ := some_mark
    rw [← root] at inRoot
    obtain ⟨r, inFilter, rfl⟩ := List.mem_map.mp inRoot
    obtain ⟨member, same⟩ := List.mem_filter.mp inFilter
    exact ⟨r, member, by simpa using same, terminal⟩

theorem noStartAfter_of_open (h : Following w s m) (unfinished : s.1.isFinished = false) :
    NoStartAfter w.renderers (w.newMarks s.2) := by
  apply NoStartAfter.of_other
  intro r member same
  by_contra terminal
  have finished := h.ended_iff.mp ⟨r, member, same, by simpa using terminal⟩
  rw [unfinished] at finished
  cases finished

theorem runById (h : Following w s m) (id : String) (msg : Option String) :
    Following w (s.1.runById id msg s.2).2 (m.put id .running) :=
  ⟨h.tracks.runById h.consistent id msg, StatusMap.put_consistent h.consistent id .running,
    h.history.trans ((Task.extends_onStage (Task.runById_op id msg)).imp fun _ _ => trivial)⟩

theorem forIds_run (h : Following w s m) (msg : Option String) (ids : List String) :
    Following w (Task.forIds (fun t id w => t.runById id msg w) ids s.1 s.2)
      (m.putAll .running ids) :=
  exec_simulates (Following w) (fun _ _ id h => h.runById id msg) h ids

theorem step (h : Following w s m) (op : TaskOp) : Following w (Task.step s op) (m.step op) := by
  have acted {id : String} {status : Status} {mark : Mark} {t : Task} {w : Screen}
      {act : Stage → Screen → Stage × Screen} {finished failed : Finset String → Finset String}
      (op : Task.StageOp id status mark act finished failed) :
      w.Extends (fun _ => True) (t.onStage id act finished failed w).2.2 :=
    (Task.extends_onStage op).imp fun _ _ => trivial
  refine ⟨h.tracks.step h.consistent op, StatusMap.step_consistent h.consistent op, ?_⟩
  apply h.history.trans
  cases op with
  | runById id msg => exact acted (Task.runById_op id msg)
  | okById id msg => exact acted (Task.okById_op id msg)
  | failById id report => exact acted (Task.failById_op id report)
  | skipById id msg => exact acted (Task.skipById_op id msg)
  | run msg =>
    change s.2.Extends _ (s.1.performRun msg s.2).2
    unfold Task.performRun
    split_ifs
    · exact .of_eq rfl
    · exact Task.extends_forIds (fun _ _ id => acted (Task.runById_op id msg)) _

theorem step_noStartAfter_iff (h : Following w s m) (op : TaskOp) :
    NoStartAfter w.renderers (w.newMarks (Task.step s op).2) ↔
      NoStartAfter w.renderers (w.newMarks s.2) ∧ Task.StartsOpen s op := by
  cases op with
  | okById id msg =>
    rw [and_iff_left (show Task.StartsOpen s (.okById id msg) from trivial)]
    exact h.history.noStartAfter_iff (Task.extends_terminal (Task.okById_op id msg) rfl)
  | failById id report =>
    rw [and_iff_left (show Task.StartsOpen s (.failById id report) from trivial)]
    exact h.history.noStartAfter_iff (Task.extends_terminal (Task.failById_op id report) rfl)
  | skipById id msg =>
    rw [and_iff_left (show Task.StartsOpen s (.skipById id msg) from trivial)]
    exact h.history.noStartAfter_iff (Task.extends_terminal (Task.skipById_op id msg) rfl)
  | runById id msg =>
    cases finished : s.1.isFinished with
    | false =>
      have next := h.runById id msg
      have undecided := StatusMap.put_running_outcome (h.tracks.undecided finished) id
      have still := next.tracks.open_of_undecided undecided
      refine iff_of_true (next.noStartAfter_of_open still) ⟨h.noStartAfter_of_open finished, ?_⟩
      simp [Task.StartsOpen, finished]
    | true =>
      by_cases known : id ∈ s.1.collectStageIds
      · obtain ⟨key, marks⟩ := Task.runById_of_finished s.2 msg finished known
        obtain ⟨added, eq, -⟩ := h.history
        have ended := h.ended_iff.mpr finished
        rw [Screen.newMarks_eq eq] at ended
        refine iff_of_false ?_ fun allowed => allowed.2 ⟨finished, known⟩
        rw [Task.step, Screen.newMarks_eq (by rw [marks, eq, List.append_assoc])]
        exact NoStartAfter.not_append_run ended
      · have same : Task.step s (.runById id msg) = s := Task.runById_of_unknown known
        rw [same, and_iff_left (show Task.StartsOpen s (.runById id msg) from
          fun both => known both.2)]
  | run msg =>
    rw [and_iff_left (show Task.StartsOpen s (.run msg) from trivial)]
    cases finished : s.1.isFinished with
    | false =>
      have next := h.forIds_run msg s.1.collectStageIds
      have still := next.tracks.open_of_undecided
        (StatusMap.putAll_running_outcome (h.tracks.undecided finished) s.1.collectStageIds)
      have loop : Task.step s (.run msg) = Task.forIds (fun t id w => t.runById id msg w)
          s.1.collectStageIds s.1 s.2 := by
        rw [Task.step, Task.performRun, finished, if_neg Bool.false_ne_true]
      rw [loop]
      exact iff_of_true (next.noStartAfter_of_open still) (h.noStartAfter_of_open finished)
    | true =>
      have same : Task.step s (.run msg) = s := by
        rw [Task.step, Task.performRun, finished, if_pos rfl]
      rw [same]

end Following

namespace Task

variable {t first : Task} {w : Screen}

theorem Idle.runById (h : Idle first (t, w)) {id : String} (msg : Option String)
    (allowed : ¬ (t.isFinished = true ∧ id ∈ t.collectStageIds)) :
    Idle first (t.runById id msg w).2 := by
  cases finished : t.isFinished with
  | true =>
    have unknown : id ∉ t.collectStageIds := fun known => allowed ⟨finished, known⟩
    rw [runById_of_unknown unknown]
    exact h
  | false => exact h.onStage_of_open finished id (runById_act msg) _ _

theorem Idle.okById (h : Idle first (t, w)) (id msg : String) : Idle first (t.okById id msg w).2 :=
  h.of_settles (settles_onStage (okById_calm msg) id _ _)

theorem Idle.skipById (h : Idle first (t, w)) (id msg : String) :
    Idle first (t.skipById id msg w).2 :=
  h.of_settles (settles_onStage (skipById_calm msg) id _ _)

theorem Idle.failById (h : Idle first (t, w)) (id : String) (report : ErrorReport) :
    Idle first (t.failById id report w).2 :=
  h.of_settles (settles_onStage (failById_calm report) id _ _)

theorem Idle.setCompleted (h : Idle first (t, w)) (msg : String) :
    Idle first (t.setCompleted msg w) :=
  h.of_settles (settles_setCompleted msg)

theorem keeps_step (s : Task × Screen) (op : TaskOp) : Keeps s (step s op) := by
  cases op with
  | runById id msg => exact keeps_onStage (runById_act msg) id _ _
  | okById id msg => exact keeps_onStage (okById_calm msg).toStageAct id _ _
  | failById id report => exact keeps_onStage (failById_calm report).toStageAct id _ _
  | skipById id msg => exact keeps_onStage (skipById_calm msg).toStageAct id _ _
  | run msg =>
    change Keeps s (s.1.performRun msg s.2)
    unfold performRun
    split_ifs
    · exact .refl s
    · exact Keeps.forIds (fun _ _ id => keeps_onStage (runById_act msg) id _ _) _

theorem consume_invariant (Inv : Task × Screen → Prop)
    (ok : ∀ s id msg, Inv s → Inv (s.1.okById id msg s.2).2)
    (skip : ∀ s id msg, Inv s → Inv (s.1.skipById id msg s.2).2)
    (fail : ∀ s id report, Inv s → Inv (s.1.failById id report s.2).2)
    (completed : ∀ s msg, Inv s → Inv (s.1.setCompleted msg s.2))
    (failed : ∀ s error, Inv s → Inv (s.1.setFailedAndClear error s.2))
    {s : Task × Screen} (start : Inv s) (e : TaskEnd) : Inv (consume s e) := by
  cases e with
  | ok msg =>
    change Inv (s.1.performOk msg s.2)
    unfold performOk
    dsimp only
    split_ifs
    · exact start
    · exact completed s msg start
    · exact exec_invariant Inv (fun s id => ok s id msg) start _
  | skip msg =>
    change Inv (s.1.performSkip msg s.2)
    unfold performSkip
    split_ifs
    · exact start
    · exact exec_invariant Inv (fun s id => skip s id msg) start _
  | fail error =>
    change Inv (s.1.performFail error s.2)
    unfold performFail
    split_ifs
    · exact start
    · exact failed _ error (exec_invariant Inv (fun s id => fail s id error) start _)

theorem extends_consume (s : Task × Screen) (e : TaskEnd) :
    s.2.Extends (·.2.terminal = true) (consume s e).2 :=
  consume_invariant (fun t => s.2.Extends (·.2.terminal = true) t.2)
    (fun _ id msg before => before.trans (extends_terminal (okById_op id msg) rfl))
    (fun _ id msg before => before.trans (extends_terminal (skipById_op id msg) rfl))
    (fun _ id report before => before.trans (extends_terminal (failById_op id report) rfl))
    (fun t msg before => before.trans (t.1.extends_setCompleted t.2 msg))
    (fun t error before => before.trans
      (.of_append (t.1.marks_setFailedAndClear t.2 error) (by simp [Mark.terminal])))
    (.of_eq rfl) e

theorem idle_consume {s : Task × Screen} (idle : Idle first s) (e : TaskEnd) :
    Idle first (consume s e) :=
  consume_invariant (Idle first) (fun _ id msg idle => idle.okById id msg)
    (fun _ id msg idle => idle.skipById id msg) (fun _ id report idle => idle.failById id report)
    (fun _ msg idle => idle.setCompleted msg) (fun _ error idle => idle.setFailedAndClear error)
    idle e

end Task

namespace Following

variable {w : Screen} {s : Task × Screen} {m : StatusMap String} {first : Task}

theorem idle_forIds_run (h : Following w s m) (isOpen : m.outcome = .undecided)
    (idle : Task.Idle first s) (msg : Option String) (ids : List String) :
    Task.Idle first (Task.forIds (fun t id w => t.runById id msg w) ids s.1 s.2) := by
  have all : ∃ n, Following w (Task.forIds (fun t id w => t.runById id msg w) ids s.1 s.2) n ∧
      n.outcome = .undecided ∧
      Task.Idle first (Task.forIds (fun t id w => t.runById id msg w) ids s.1 s.2) :=
    exec_invariant
      (fun s : Task × Screen => ∃ n, Following w s n ∧ n.outcome = .undecided ∧ Task.Idle first s)
      (fun s id ⟨_, follows, isOpen, idle⟩ =>
        ⟨_, follows.runById id msg, StatusMap.put_running_outcome isOpen id,
          idle.runById msg (by simp [follows.tracks.open_of_undecided isOpen])⟩)
      ⟨m, h, isOpen, idle⟩ ids
  exact all.choose_spec.2.2

theorem idle_step (h : Following w s m) (idle : Task.Idle first s) {op : TaskOp}
    (allowed : Task.StartsOpen s op) : Task.Idle first (Task.step s op) := by
  cases op with
  | runById id msg => exact idle.runById msg allowed
  | okById id msg => exact idle.okById id msg
  | failById id report => exact idle.failById id report
  | skipById id msg => exact idle.skipById id msg
  | run msg =>
    change Task.Idle first (s.1.performRun msg s.2)
    unfold Task.performRun
    split_ifs with finished
    · exact idle
    · exact h.idle_forIds_run (h.tracks.undecided (by simpa using finished)) idle msg _

end Following

/-- Of the entries that a task began with none is active and no bar of one ticks
once the root is finished; in plain mode no start follows the end of the root, on
from the screen that the task was started on. -/
structure NothingRunning (mode : RenderMode) (w : Screen) (first : Task) (s : Task × Screen) :
    Prop where
  entries : s.1.isFinished = true → ∀ key ∈ first.entryKeys, ¬ s.2.Active key
  bars : s.1.isFinished = true → ∀ bar ∈ first.block.entryNodes, ¬ s.2.layout.multi.Ticks bar
  order : mode = .plain → NoStartAfter w.renderers (w.newMarks s.2)

theorem Task.Idle.nothing_running {mode : RenderMode} {w : Screen} {first : Task}
    {s : Task × Screen} (idle : Task.Idle first s)
    (order : NoStartAfter w.renderers (w.newMarks s.2)) : NothingRunning mode w first s :=
  ⟨idle.rests, fun finished _ member ticks => ticks.2 (idle.ended finished member), fun _ => order⟩

namespace Sequential

variable {autostart : Bool} {m : Sequential}

theorem Strict.ne_head (strict : m.Strict autostart) (isOpen : m.root = none) :
    ∀ r ∈ m.records, r.1 ≠ .head := by
  intro r member same
  have head := strict.head
  rw [isOpen, recordsOf, ofPart] at head
  have listed : r.2 ∈ (m.records.filter (·.1 = .head)).map Prod.snd :=
    List.mem_map_of_mem (List.mem_filter.mpr ⟨member, by simpa using same⟩)
  rw [head] at listed
  cases listed

theorem terminal_skips (msg : String) (first stages : Nat) :
    ∀ r ∈ skips msg first stages, r.2.terminal = true := by
  intro r member
  obtain ⟨i, -, rfl⟩ := List.mem_map.mp member
  rfl

theorem step_noStartAfter (strict : m.Strict autostart) (quiet : NoStartAfter .head m.records)
    (op : SequenceOp) : NoStartAfter .head (m.step op).records := by
  by_cases isOpen : m.root = none
  · have other : ∀ r ∈ m.records, r.1 = .head → r.2.terminal = false :=
      fun r member same => absurd same (strict.ne_head isOpen r member)
    have pass {mark : Mark} (terminal : mark.terminal = true) :
        NoStartAfter .head (m.pass mark).records := by
      rcases Nat.lt_trichotomy (m.position + 1) m.stages with more | last | after
      · rw [pass_of_more more]
        exact NoStartAfter.append_other other (NoStartAfter.of_other (by simp))
      · rw [pass_last isOpen last]
        refine NoStartAfter.append_other other (NoStartAfter.of_terminal fun r member => ?_)
        simp only [List.mem_cons, List.not_mem_nil, or_false] at member
        rcases member with rfl | rfl
        · exact terminal
        · rfl
      · rw [Sequential.pass, if_neg (by omega)]
        exact quiet
    unfold step
    rw [if_neg (by simp [isOpen])]
    cases op with
    | ok msg => exact pass rfl
    | skip msg => exact pass rfl
    | fail report =>
      change NoStartAfter .head m.fail.records
      unfold fail
      split_ifs
      · rw [List.append_assoc]
        refine NoStartAfter.append_other other (NoStartAfter.of_terminal fun r member => ?_)
        rcases List.mem_append.mp member with failed | skipped
        · simp only [List.mem_cons, List.not_mem_nil, or_false] at failed
          rcases failed with rfl | rfl <;> rfl
        · exact terminal_skips _ _ _ r skipped
      · exact quiet
    | finish msg =>
      change NoStartAfter .head (m.finish msg).records
      rw [finish, List.append_assoc]
      refine NoStartAfter.append_other other (NoStartAfter.of_terminal fun r member => ?_)
      rcases List.mem_append.mp member with skipped | last
      · exact terminal_skips _ _ _ r skipped
      · rw [List.mem_singleton.mp last]
        rfl
  · unfold step
    rw [if_pos (Option.isSome_iff_ne_none.mpr isOpen)]
    exact quiet

theorem start_noStartAfter (stages : Nat) (autostart : Bool) :
    NoStartAfter .head (start stages autostart).records := by
  apply NoStartAfter.of_other
  unfold start activate
  split_ifs <;> simp [blank]

end Sequential

namespace TaskSequence

variable {s : TaskSequence} {w : Screen} {first : Task}

abbrev IdleInner (first : Task) (s : TaskSequence × Screen) : Prop :=
  Task.Idle first (s.1.inner, s.2)

theorem idle_activateCurrentStage (h : IdleInner first (s, w))
    (unfinished : s.inner.isFinished = false) : IdleInner first (s.activateCurrentStage w) := by
  unfold activateCurrentStage
  split
  · exact Task.Idle.runById h none (by simp [unfinished])
  · exact h

theorem idle_advance (h : IdleInner first (s, w))
    (unfinished : s.currentStage + 1 < s.allIds.length → s.inner.isFinished = false) :
    IdleInner first (s.advance w) := by
  unfold advance
  dsimp only
  split_ifs with more
  · exact idle_activateCurrentStage (s := ⟨s.inner, s.currentStage + 1, s.allIds⟩) h
      (unfinished more)
  · exact Task.Idle.setCompleted h "success"

theorem idle_skipStages (h : IdleInner first (s, w)) {startFrom : Nat} {msg : String}
    {next : TaskSequence × Screen} (skipped : s.skipStages startFrom msg w = some next) :
    IdleInner first next := by
  unfold skipStages at skipped
  obtain ⟨ids, -, eq⟩ := Option.bind_eq_some_iff.mp skipped
  rw [← Option.some.inj eq]
  have skips (t : Task) (w : Screen) (id : String) : Task.Settles (t, w) (t.skipById id msg w).2 :=
    Task.settles_onStage (Task.skipById_calm msg) id _ _
  exact h.of_settles (Task.Settles.forIds skips ids)

theorem idle_fail (h : IdleInner first (s, w)) {report : ErrorReport}
    {next : TaskSequence × Screen} (failed : s.fail report w = some next) :
    IdleInner first next := by
  unfold fail at failed
  split at failed
  · rename_i id _
    have stopped := Task.Idle.failById h id report
    dsimp only at failed
    split_ifs at failed
    · exact idle_skipStages stopped failed
    · rw [← Option.some.inj failed]
      exact stopped
  · rw [← Option.some.inj failed]
    exact h

theorem idle_finish (h : IdleInner first (s, w)) {msg : String}
    {next : TaskSequence × Screen} (finished : s.finish msg w = some next) :
    IdleInner first next := by
  unfold finish at finished
  dsimp only at finished
  split_ifs at finished
  · obtain ⟨mid, skipped, eq⟩ := Option.bind_eq_some_iff.mp finished
    rw [← Option.some.inj eq]
    exact Task.Idle.setCompleted (idle_skipStages h skipped) msg
  · rw [← Option.some.inj finished]
    exact Task.Idle.setCompleted h msg

end TaskSequence

namespace Follows

variable {key : Part → Nat} {old : List (Nat × Mark)} {s : TaskSequence} {w : Screen}
  {m : Sequential} {first : Task}

theorem unfinished_of_more {inner : Task} {w' : Screen} {mark : Mark}
    (h : Follows key old (s, w) m) (isOpen : m.root = none)
    (passed : Shows key old (inner, w') (m.verdict mark))
    (more : s.currentStage + 1 < s.allIds.length) : inner.isFinished = false := by
  have current : s.currentStage = m.position := h.current
  have length := h.length
  have shown : inner.isFinished = (m.verdict mark).root.isSome := passed.isFinished
  rw [shown, Sequential.verdict_of_more mark (by omega)]
  simp [Sequential.push, isOpen]

theorem idle_advance {inner : Task} {w' : Screen} {mark : Mark} (h : Follows key old (s, w) m)
    (isOpen : m.root = none) (passed : Shows key old (inner, w') (m.verdict mark))
    (idle : Task.Idle first (inner, w')) :
    TaskSequence.IdleInner first ({ s with inner }.advance w') :=
  TaskSequence.idle_advance (s := { s with inner }) idle
    (h.unfinished_of_more isOpen passed)

theorem idle_step {autostart : Bool} (h : Follows key old (s, w) m) (strict : m.Strict autostart)
    (idle : TaskSequence.IdleInner first (s, w)) {op : SequenceOp}
    {next : TaskSequence × Screen} (taken : TaskSequence.step (s, w) op = some next) :
    TaskSequence.IdleInner first next := by
  by_cases isOpen : m.root = none
  · cases op with
    | ok msg =>
      rw [← Option.some.inj taken, h.ok_eq]
      split_ifs with inside
      · exact h.idle_advance isOpen (h.inner.verdict inside (Task.okById_op _ msg) trivial)
          (Task.Idle.okById idle _ msg)
      · exact idle
    | skip msg =>
      rw [← Option.some.inj taken, h.skip_eq]
      split_ifs with inside
      · exact h.idle_advance isOpen (h.inner.verdict inside (Task.skipById_op _ msg) trivial)
          (Task.Idle.skipById idle _ msg)
      · exact idle
    | fail report => exact TaskSequence.idle_fail idle taken
    | finish msg => exact TaskSequence.idle_finish idle taken
  · rw [h.step_decided isOpen (position_of_decided strict isOpen) op] at taken
    exact Option.some.inj taken ▸ idle

theorem run_idle {autostart : Bool} {start : TaskSequence × Screen}
    (h : Follows key old start m) (strict : m.Strict autostart)
    (quiet : NoStartAfter .head m.records) (idle : TaskSequence.IdleInner first start)
    (ops : List SequenceOp) :
    ∃ s n, Machine.run TaskSequence.step start ops = some s ∧ Follows key old s n ∧
      n.stages = m.stages ∧ n.Strict autostart ∧ NoStartAfter .head n.records ∧
      TaskSequence.IdleInner first s := by
  induction ops generalizing start m with
  | nil => exact ⟨start, m, rfl, h, rfl, strict, quiet, idle⟩
  | cons op ops ih =>
    obtain ⟨next, taken, follows⟩ := h.step strict op
    obtain ⟨s, n, reached, last, stages, rest⟩ := ih follows
      (Sequential.step_strict strict op) (Sequential.step_noStartAfter strict quiet op)
      (h.idle_step strict idle taken)
    exact ⟨s, n, run_cons_eq_some.mpr ⟨next, taken, reached⟩, last,
      stages.trans (m.step_stages op), rest⟩

theorem noStartAfter {autostart : Bool} {w : Screen} {s : TaskSequence × Screen}
    (h : Follows key w.marks s m) (strict : m.Strict autostart)
    (injective : ∀ p q : Part, p.Valid m.stages → q.Valid m.stages → key p = key q → p = q)
    (quiet : NoStartAfter .head m.records) : NoStartAfter (key .head) (w.newMarks s.2) := by
  rw [Screen.newMarks_eq h.inner.marks, NoStartAfter, List.pairwise_map]
  refine List.Pairwise.imp_of_mem (fun member _ order same => ?_) quiet
  exact order (injective _ _ (strict.valid _ member) trivial same)

end Follows

theorem sequence_nothing_running (name : String) (style : TaskStyle) (mode : RenderMode)
    (steps : List SequenceStep) (autostart autoIndent : Bool) (w : Screen) :
    ∃ start, ((TaskSequenceBuilder.new (TaskBuilder.new name style mode)).chain steps).launch
        autostart autoIndent w = some start ∧
      ∀ ops, ∃ s, Machine.run TaskSequence.step start ops = some s ∧
        NothingRunning mode w start.1.inner (s.1.inner, s.2) := by
  obtain ⟨registered, -⟩ :=
    TaskSequenceBuilder.chain_registered (TaskSequenceBuilder.new_registered name style mode) steps
  obtain ⟨start, key, launched, injective, head, follows⟩ :=
    TaskSequenceBuilder.launch_follows registered autostart autoIndent w
  refine ⟨start, launched, fun ops => ?_⟩
  have unfinished : start.1.inner.isFinished = false := by
    rw [follows.inner.isFinished]
    unfold Sequential.start Sequential.activate
    split_ifs <;> rfl
  have idle : TaskSequence.IdleInner start.1.inner start :=
    (Task.Kept.of_open unfinished).idle unfinished
  obtain ⟨s, n, reached, last, stages, strict, quiet, idle⟩ := follows.run_idle
    (Sequential.start_strict _ autostart) (Sequential.start_noStartAfter _ autostart) idle ops
  rw [Sequential.start_stages] at stages
  have order := last.noStartAfter strict (by rw [stages]; exact injective) quiet
  rw [head] at order
  exact ⟨s, reached, idle.nothing_running order⟩

namespace TaskBuilder

theorem start_following (b : TaskBuilder) (autoIndent : Bool) (w : Screen) :
    ∃ start, b.start autoIndent w = some start ∧ start.1.isFinished = false ∧
      ∃ m, Following w start m := by
  obtain ⟨task, w', fresh, started⟩ := b.start_spec autoIndent w
  have first : Following w (task, w') (StatusMap.blank (b.steps.filterMap BuilderStep.stageId)) :=
    ⟨fresh.tracks, StatusMap.blank_consistent _, .of_eq fresh.marks⟩
  have last := first.forIds_run none (b.steps.filterMap BuilderStep.autostartId)
  have unfinished := last.tracks.open_of_undecided (StatusMap.putAll_running_outcome rfl _)
  exact ⟨_, started, unfinished, _, last⟩

end TaskBuilder

namespace Following

variable {w : Screen} {s start : Task × Screen} {m : StatusMap String} {first : Task}

theorem nothing_running_of_open (h : Following w s m) (unfinished : s.1.isFinished = false)
    (mode : RenderMode) : NothingRunning mode w first s where
  entries finished := by rw [unfinished] at finished; cases finished
  bars finished := by rw [unfinished] at finished; cases finished
  order _ := h.noStartAfter_of_open unfinished

theorem step_nothing_running_iff {mode : RenderMode} (h : Following w s m)
    (kept : Task.Kept first s) (before : NothingRunning mode w first s) (op : TaskOp) :
    NothingRunning mode w first (Task.step s op) ↔ Task.StartsOpen s op := by
  constructor
  · intro after
    cases op with
    | runById id msg =>
      rintro ⟨finished, known⟩
      obtain ⟨key, member, active⟩ := Task.active_runById s.2 msg finished known
      have still : (Task.step s (.runById id msg)).1.isFinished = true :=
        (Task.keeps_step s (.runById id msg)).finished finished
      exact after.entries still key (kept.entries member) active
    | okById | failById | skipById | run => trivial
  · intro allowed
    have idle : Task.Idle first s := ⟨kept, before.entries⟩
    have next := h.idle_step idle allowed
    refine ⟨next.rests, fun finished _ member ticks => ticks.2 (next.ended finished member), ?_⟩
    exact fun plain => (h.step_noStartAfter_iff op).mpr ⟨before.order plain, allowed⟩

theorem consume_nothing_running {mode : RenderMode} (h : Following w s m)
    (kept : Task.Kept first s) (before : NothingRunning mode w first s) (e : TaskEnd) :
    NothingRunning mode w first (Task.consume s e) := by
  have idle := Task.idle_consume ⟨kept, before.entries⟩ e
  refine ⟨idle.rests, fun finished _ member ticks => ticks.2 (idle.ended finished member), ?_⟩
  exact fun plain =>
    (h.history.noStartAfter_iff (Task.extends_consume s e)).mpr (before.order plain)

theorem exec_nothing_running (h : Following w start m) (unfinished : start.1.isFinished = false)
    (mode : RenderMode) (ops : List TaskOp) :
    (∀ taken, taken <+: ops →
      let s := exec Task.step start taken
      NothingRunning mode w start.1 s ∧
        ∀ e, NothingRunning mode w start.1 (Task.consume s e)) ↔
      Guarded Task.StartsOpen (fun s op => some (Task.step s op)) start ops := by
  have invariant (ops : List TaskOp) :
      (∃ m, Following w (exec Task.step start ops) m) ∧
        Task.Kept start.1 (exec Task.step start ops) :=
    exec_invariant (fun s => (∃ m, Following w s m) ∧ Task.Kept start.1 s)
      (fun s op ⟨⟨m, follows⟩, kept⟩ =>
        ⟨⟨m.step op, follows.step op⟩, kept.of_keeps (Task.keeps_step s op)⟩)
      ⟨⟨m, h⟩, Task.Kept.of_open unfinished⟩ ops
  rw [← always_guarded_iff
    (fun s => (∃ m, Following w s m) ∧ Task.Kept start.1 s) (NothingRunning mode w start.1)
    (fun s op _ ⟨⟨m, follows⟩, kept⟩ taken => Option.some.inj taken ▸
      ⟨⟨m.step op, follows.step op⟩, kept.of_keeps (Task.keeps_step s op)⟩)
    (fun _ op _ ⟨⟨_, follows⟩, kept⟩ before taken => Option.some.inj taken ▸
      follows.step_nothing_running_iff kept before op)
    ⟨⟨m, h⟩, Task.Kept.of_open unfinished⟩ (h.nothing_running_of_open unfinished mode)
    (run_total Task.step start ops)]
  constructor
  · intro quiet taken mid before reached
    rw [run_total] at reached
    exact Option.some.inj reached ▸ (quiet taken before).1
  · intro quiet taken before
    have now := quiet taken _ before (run_total Task.step start taken)
    obtain ⟨⟨_, follows⟩, kept⟩ := invariant taken
    exact ⟨now, fun e => follows.consume_nothing_running kept now e⟩

end Following

end KnotOps.Terminal
