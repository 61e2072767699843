import KnotOps.Terminal.Drawing
import KnotOps.Terminal.Script

/-! `start` with the bars that it styles.
A bar takes a style when its template is well formed and, if it spins, its spinner
has at least two frames; the source unwraps the one and the style asserts the other.
The titles and waits of a start are always taken.  Which other templates are well
formed and how many frames a text has is up to indicatif. -/

namespace KnotOps.Terminal

open Template

/-- The bar of the renderer takes the style of the call. -/
def Record.draws (g : StyleGrammar) (c : Console) (ticks : String → Nat) (r : Record) : Bool :=
  match r.renderer.strategy with
  | .plain _ => true
  | .interactive _ _ =>
    (g.parse (r.renderer.draw c r.event).template).isSome &&
      match r.event with
      | .run _ => decide (2 ≤ ticks r.renderer.style.runFrame)
      | _ => true

namespace TaskBuilder

variable (g : StyleGrammar) (c : Console) (ticks : String → Nat) (b : TaskBuilder)

/-- `start` where no bar refuses its style. -/
def startDrawn (autoIndent : Bool) (w : Screen) : Option (Task × Screen) := do
  let (t, w') ← b.start autoIndent w
  if (w'.log.drop w.log.length).all (·.draws g c ticks) then some (t, w') else none

def childOf (name : String) : TaskRenderer :=
  ⟨0, name, .interactive ⟨0⟩ [], b.style, childIndentSpaces⟩

/-- The dividers of the groups are taken as styles, and so are the spinners of the
stages that run at once. -/
structure Drawable : Prop where
  groups : ∀ header, .group header ∈ b.steps →
    Record.draws g c ticks ⟨b.childOf (header.getD ""), .separator⟩ = true
  runs : ∀ id name, .stage id name true ∈ b.steps →
    Record.draws g c ticks ⟨b.childOf name, .run none⟩ = true

end TaskBuilder

section Draws

variable {g : StyleGrammar} {c : Console} {ticks : String → Nat} {b : TaskBuilder}

theorem draws_of_plain {r : TaskRenderer} {ciPrefix : String} (plain : r.strategy = .plain ciPrefix)
    (e : Event) : Record.draws g c ticks ⟨r, e⟩ = true := by
  simp [Record.draws, plain]

theorem draws_of_showsVerbatim {r : TaskRenderer} {e : Event} (shows : r.ShowsVerbatim g c e)
    (still : ∀ msg, e ≠ .run msg) : Record.draws g c ticks ⟨r, e⟩ = true := by
  obtain ⟨pieces, parsed, -⟩ := shows
  unfold Record.draws
  split
  · rfl
  · rw [parsed, Option.isSome_some, Bool.true_and]
    cases e with
    | run msg => exact absurd rfl (still msg)
    | _ => rfl

theorem draws_title (r : TaskRenderer) : Record.draws g c ticks ⟨r, .title⟩ = true := by
  have accepted := r.barTemplate_accepted g
  unfold Record.draws
  split
  · rfl
  · simpa [TaskRenderer.draw] using accepted

theorem draws_wait (r : TaskRenderer) (msg : Option String) :
    Record.draws g c ticks ⟨r, .wait msg⟩ = true := by
  have accepted := r.barTemplate_accepted g
  unfold Record.draws
  split
  · rfl
  · simpa [TaskRenderer.draw] using accepted

theorem draws_child (mode : b.mode = .interactive) {name : String} {r : TaskRenderer}
    (child : b.Child name r) (e : Event) :
    Record.draws g c ticks ⟨r, e⟩ = Record.draws g c ticks ⟨b.childOf name, e⟩ := by
  obtain ⟨node, strategy⟩ := child.interactive mode
  obtain ⟨key, rName, rStrategy, rStyle, rIndent⟩ := r
  obtain ⟨rfl, rfl, rfl, -, -⟩ := child
  simp only at strategy
  subst strategy
  rfl

variable {steps : List BuilderStep} {entries : List TaskEntry}

theorem draws_records_iff (mode : b.mode = .interactive)
    (entered : List.Forall₂ (b.Entered true) steps entries) :
    (∀ r ∈ TaskBuilder.records steps entries, r.draws g c ticks = true) ↔
      ∀ header, .group header ∈ steps →
        Record.draws g c ticks ⟨b.childOf (header.getD ""), .separator⟩ = true := by
  induction entered with
  | nil => simp [TaskBuilder.records]
  | @cons step entry steps entries first _ ih =>
    rw [TaskBuilder.records, List.zipWith_cons_cons, List.forall_mem_cons]
    change _ ∧ (∀ r ∈ TaskBuilder.records steps entries, _) ↔ _
    rw [ih]
    cases step with
    | stage id name autoRun => simp [BuilderStep.event, draws_wait]
    | group header =>
      cases entry with
      | stage s => exact first.elim
      | extra r =>
        rw [show TaskEntry.renderer (.extra r) = r from rfl, BuilderStep.event,
          draws_child mode first]
        simp

theorem draws_runRecords_iff (mode : b.mode = .interactive)
    (entered : List.Forall₂ (b.Entered true) steps entries) :
    (∀ r ∈ TaskBuilder.runRecords steps entries, r.draws g c ticks = true) ↔
      ∀ id name, .stage id name true ∈ steps →
        Record.draws g c ticks ⟨b.childOf name, .run none⟩ = true := by
  induction entered with
  | nil => simp [TaskBuilder.runRecords]
  | @cons step entry steps entries first _ ih =>
    cases step with
    | group header =>
      have same : TaskBuilder.runRecords (.group header :: steps) (entry :: entries) =
          TaskBuilder.runRecords steps entries := by
        simp [TaskBuilder.runRecords, BuilderStep.autoRuns]
      rw [same, ih]
      simp
    | stage id name autoRun =>
      cases entry with
      | extra r => exact first.elim
      | stage s =>
        cases autoRun with
        | false =>
          have same : TaskBuilder.runRecords (.stage id name false :: steps)
              (.stage s :: entries) = TaskBuilder.runRecords steps entries := by
            simp [TaskBuilder.runRecords, BuilderStep.autoRuns]
          rw [same, ih]
          simp
        | true =>
          have more : TaskBuilder.runRecords (.stage id name true :: steps)
              (.stage s :: entries) =
                ⟨s.renderer, .run none⟩ :: TaskBuilder.runRecords steps entries := by
            simp [TaskBuilder.runRecords, BuilderStep.autoRuns, TaskEntry.renderer]
          rw [more, List.forall_mem_cons, ih, draws_child mode first.2.2]
          constructor
          · rintro ⟨here, later⟩ id' name' member
            rcases List.mem_cons.mp member with same | old
            · obtain ⟨rfl, rfl, -⟩ := BuilderStep.stage.inj same
              exact here
            · exact later id' name' old
          · intro all
            exact ⟨all id name List.mem_cons_self,
              fun id' name' old => all id' name' (List.mem_cons_of_mem _ old)⟩

namespace TaskBuilder

variable {autoIndent : Bool} {t : Task} {w w' : Screen}

theorem Faithful.draws_iff (h : b.Faithful autoIndent w t w') :
    (∀ r ∈ w'.log.drop w.log.length, r.draws g c ticks = true) ↔
      (b.mode = .interactive → b.Drawable g c ticks) := by
  obtain ⟨children, spacers, -, entered, -, -, log⟩ := h.entries
  rw [log, List.drop_left, List.forall_mem_cons, List.forall_mem_append]
  cases mode : b.mode with
  | interactive =>
    rw [draws_records_iff mode entered, draws_runRecords_iff mode entered]
    constructor
    · rintro ⟨-, groups, runs⟩ -
      exact ⟨groups, runs⟩
    · intro drawable
      exact ⟨draws_title _, (drawable rfl).groups, (drawable rfl).runs⟩
  | plain =>
    have taken {entry : TaskEntry} (member : entry ∈ children) (e : Event) :
        Record.draws g c ticks ⟨entry.renderer, e⟩ = true := by
      obtain ⟨_, -, child⟩ := child_of_entered entered member
      exact draws_of_plain (child.plain mode) e
    refine iff_of_true ⟨draws_of_plain (h.plain mode) _, fun r member => ?_, fun r member => ?_⟩
      nofun
    · obtain ⟨step, entry, inEntries, rfl⟩ := mem_records member
      exact taken inEntries _
    · obtain ⟨entry, inEntries, rfl⟩ := mem_runRecords member
      exact taken inEntries _

theorem startDrawn_eq_some_iff (started : b.start autoIndent w = some (t, w')) {t₁ : Task}
    {w₁ : Screen} :
    b.startDrawn g c ticks autoIndent w = some (t₁, w₁) ↔
      (∀ r ∈ w'.log.drop w.log.length, r.draws g c ticks = true) ∧ (t, w') = (t₁, w₁) := by
  simp [startDrawn, started]

/-- No insertion point is missing when `start` unwraps it, and the task is the one of the
script exactly if the bars take the dividers of its groups and the spinners of the stages
that run at once. -/
theorem start_faithful_iff (g : StyleGrammar) (c : Console) (ticks : String → Nat) (b : TaskBuilder)
    (distinct : (b.steps.filterMap BuilderStep.stageId).Nodup) (autoIndent : Bool) {w : Screen}
    (wellFormed : w.layout.WellFormed) :
    b.start autoIndent w ≠ none ∧
      ((∃ t w', b.startDrawn g c ticks autoIndent w = some (t, w') ∧
        b.Faithful autoIndent w t w') ↔ (b.mode = .interactive → b.Drawable g c ticks)) := by
  obtain ⟨t, w', started, faithful⟩ := b.start_faithful distinct autoIndent wellFormed
  refine ⟨by simp [started], ?_⟩
  rw [← faithful.draws_iff]
  constructor
  · rintro ⟨t₁, w₁, drawn, -⟩
    exact ((startDrawn_eq_some_iff started).mp drawn).1
  · intro taken
    exact ⟨t, w', (startDrawn_eq_some_iff started).mpr ⟨taken, rfl⟩, faithful⟩

def release : TaskBuilder :=
  (((TaskBuilder.new "release" .modern .interactive).withStage "build" "Build" true).withGroup
    (some "checks")).withStage "test" "Test" false

theorem start_faithful_iff_release :
    ∃ t w', release.startDrawn (.strict _) .colourless String.length true (Screen.new id) =
      some (t, w') ∧ release.Faithful true (Screen.new id) t w' := by
  have reached : Machine.run Session.step (Session.new id) [] = some (Session.new id) := rfl
  refine (start_faithful_iff (.strict _) .colourless String.length release (by decide) true
    (Session.wellFormed_of_run id reached)).2.mpr fun _ => ⟨?_, ?_⟩
  · intro header member
    obtain rfl : header = some "checks" := by
      simpa [release, withStage, withGroup, new] using member
    refine draws_of_showsVerbatim ?_ (by simp)
    exact TaskRenderer.showsVerbatim_of_inert (.strict _) .colourless _ (by decide)
  · intro id name member
    obtain ⟨-, rfl⟩ : id = "build" ∧ name = "Build" := by
      simpa [release, withStage, withGroup, new] using member
    decide

/-- A header of two braces is no placeholder, and the divider of its group is refused. -/
theorem start_panics_on_header :
    ¬∃ t w', ((TaskBuilder.new "deploy" .modern .interactive).withGroup
        (some "\x7b\x7d")).startDrawn (.strict _) .colourless String.length false (Screen.new id) =
      some (t, w') := by
  rintro ⟨t, w', drawn⟩
  have refused : ((TaskBuilder.new "deploy" .modern .interactive).withGroup
      (some "\x7b\x7d")).startDrawn (.strict _) .colourless String.length false (Screen.new id) =
        none := rfl
  rw [refused] at drawn
  cases drawn

end TaskBuilder

end Draws

end KnotOps.Terminal
