import KnotOps.Terminal.Authors
import KnotOps.Terminal.Plain

/-! The log of a session in plain mode.
Elements are created with an engine in plain mode and used as in any session; a call
that needs the layout is not made.  The transcript of a run lists every string handed
to the writer with the rendering that it comes from and, where it is about a stage or a
group, the name of the task. -/

namespace KnotOps.Terminal

open Machine Text

def TaskStyle.texts (s : TaskStyle) : List String :=
  [s.prefixTitle, s.prefixActive, s.prefixSuccess, s.prefixFail, s.prefixSkip, s.prefixWait,
    s.runFrame, s.divider]

def StepEnd.texts : StepEnd → List String
  | ok status | skip status => [status]
  | fail _ => []

namespace SessionOp

/-- The texts that a call is given, error reports aside. -/
def texts : SessionOp → List String
  | space => []
  | newStep style name _ => name :: style.texts
  | newTask style name steps _ => name :: (style.texts ++ steps.map (·.childName))
  | newSequence style name steps _ _ => name :: (style.texts ++ steps.map (·.childName))
  | task _ op => op.texts
  | endTask _ e => e.texts
  | sequence _ op => op.texts
  | runStep _ status => status.toList
  | endStep _ e => e.texts

def taskName? : SessionOp → Option String
  | newTask _ name _ _ | newSequence _ name _ _ _ => some name
  | _ => none

end SessionOp

def Element.renderers? : Element → Option Renderers
  | task t => some t.renderers
  | sequence s => some s.inner.renderers
  | step s => some s.renderers
  | spacer _ => none

namespace Session

def createPlain (s : Session) : SessionOp → Option Session
  | .space => some { s with screen := ((TaskEngine.mk .plain .plain).space s.screen).2 }
  | .newStep style name autoRun =>
    let (step, w) := (TaskEngine.mk style .plain).step name autoRun s.screen
    some (s.push (.step step) w)
  | .newTask style name steps autoIndent => do
    let builder := (TaskEngine.mk style .plain).task name
    let (task, w) ← { builder with steps }.start autoIndent s.screen
    some (s.push (.task task) w)
  | .newSequence style name steps autostart autoIndent => do
    let builder := ((TaskEngine.mk style .plain).sequence name).chain steps
    let (sequence, w) ← builder.launch autostart autoIndent s.screen
    some (s.push (.sequence sequence) w)
  | _ => none

def stepPlain (s : Session) (op : SessionOp) : Option Session :=
  if op.creates then s.createPlain op else s.step op

def subject (s next : Session) : SessionOp → Option Renderers
  | .space => none
  | .newStep .. | .newTask .. | .newSequence .. =>
    next.slots.getLast?.bind (·.element.renderers?)
  | .task i _ | .endTask i _ | .sequence i _ | .runStep i _ | .endStep i _ =>
    s.slots[i]?.bind (·.element.renderers?)

end Session

/-- The task of a rendering for one of its stages or groups. -/
def Renderers.task? (c : Renderers) (r : TaskRenderer) : Option String :=
  if r ∈ c.children then some c.root.name else none

/-- A string handed to the writer. -/
structure PlainLine where
  task : Option String
  record : Record
  line : List Char

namespace PlainConsole

variable (c : PlainConsole)

def handed (s next : Session) (op : SessionOp) : List PlainLine :=
  (next.screen.log.drop s.screen.log.length).flatMap fun r =>
    (r.written c).map fun line => ⟨(s.subject next op).bind (·.task? r.renderer), r, line⟩

/-- What a run hands to the writer. -/
def transcript (s : Session) : List SessionOp → List PlainLine
  | [] => []
  | op :: ops =>
    match s.stepPlain op with
    | some next => c.handed s next op ++ transcript next ops
    | none => []

end PlainConsole

def Session.All (P : Renderers → Prop) (s : Session) : Prop :=
  ∀ slot ∈ s.slots, ∃ c, slot.element.renderers? = some c ∧ P c

structure SessionOp.Gives (op : SessionOp) (c : Renderers) : Prop where
  plain : c.InPlain
  root : c.root.name ∈ op.texts
  names : ∀ r ∈ c.children, r.name ∈ op.texts
  style : ∀ r ∈ c.all, r.style.texts ⊆ op.texts
  task : ∀ r ∈ c.children, op.taskName? = some c.root.name

theorem Element.Does.operates {good : String → Prop} (fixed : ∀ msg ∈ fixedMessages, good msg)
    {w w' : Screen} {op : SessionOp} {element element' : Element} {owned : Bool}
    (does : Does w op element element' owned w')
    (plain : ∀ c, element.renderers? = some c → c.InPlain)
    (given : ∀ text ∈ op.texts, good text) :
    ∃ c c', element.renderers? = some c ∧ element'.renderers? = some c' ∧
      Operates good c w c' w' := by
  cases does with
  | task i t op => exact ⟨_, _, rfl, rfl, Task.operates_step fixed (plain _ rfl) given⟩
  | endTask i t e => exact ⟨_, _, rfl, rfl, Task.operates_consume fixed (plain _ rfl) given⟩
  | sequence i moved =>
    exact ⟨_, _, rfl, rfl, TaskSequence.operates_step fixed (plain _ rfl) given moved⟩
  | runStep i p status =>
    exact ⟨_, _, rfl, rfl, Step.operates_performRun (by simpa [SessionOp.texts] using given)⟩
  | endStepOk i p status =>
    exact ⟨_, _, rfl, rfl, Step.operates_performOk (given status List.mem_cons_self)⟩
  | endStepFail i p error =>
    exact ⟨_, _, rfl, rfl, Step.operates_performFail (plain _ rfl) error⟩
  | endStepSkip i p status =>
    exact ⟨_, _, rfl, rfl, Step.operates_performSkip (given status List.mem_cons_self)⟩

theorem SessionOp.gives_of_builder {op : SessionOp} {b : TaskBuilder} {c : Renderers}
    (h : b.Gives c) (task : op.taskName? = some b.name) (name : b.name ∈ op.texts)
    (style : b.style.texts ⊆ op.texts) (names : ∀ step ∈ b.steps, step.childName ∈ op.texts) :
    op.Gives c := by
  refine ⟨h.plain, h.name ▸ name, fun r member => ?_, fun r member => ?_, fun _ _ => ?_⟩
  · obtain ⟨step, inSteps, same⟩ := h.names r member
    exact same ▸ names step inSteps
  · exact h.style r member ▸ style
  · rw [task, h.name]

theorem SessionOp.gives_step {style : TaskStyle} {name : String} {autoRun : Bool} {p : Step}
    (plain : p.renderers.InPlain) (same : p.renderer.name = name)
    (styled : p.renderer.style = style) : (newStep style name autoRun).Gives p.renderers := by
  refine ⟨plain, List.mem_cons.mpr (.inl same), nofun, fun r member => ?_, nofun⟩
  rw [List.mem_singleton.mp member]
  exact List.subset_cons_of_subset _ (by rw [← styled]; exact List.Subset.refl _)

namespace Session

variable {s next : Session} {op : SessionOp} {good : String → Prop} {c c' : Renderers}

structure Uses (good : String → Prop) (s next : Session) (op : SessionOp) (c c' : Renderers) :
    Prop where
  subject : s.subject next op = some c
  operates : Operates good c s.screen c' next.screen
  slots : ∃ i element element' owned, s.slots[i]? = some ⟨element, true⟩ ∧
    next.slots = s.slots.set i ⟨element', owned⟩ ∧ element.renderers? = some c ∧
    element'.renderers? = some c'

structure Makes (good : String → Prop) (s next : Session) (op : SessionOp) (c : Renderers) :
    Prop where
  subject : s.subject next op = some c
  gives : op.Gives c
  adds : s.screen.Adds c.all good next.screen
  slots : ∃ element, next.slots = s.slots ++ [⟨element, true⟩] ∧ element.renderers? = some c

theorem All.get? {P : Renderers → Prop} (all : s.All P) {i : Nat} {element : Element}
    (found : s.get? i = some element) (renderers : element.renderers? = some c) : P c := by
  obtain ⟨c', here, holds⟩ := all _ (List.mem_of_getElem? (get?_eq_some found))
  obtain rfl := Option.some.inj (renderers.symm.trans here)
  exact holds

theorem subject_of_slot {i : Nat} (slot : op.slot? = some i) :
    s.subject next op = s.slots[i]?.bind (·.element.renderers?) := by
  cases op with
  | space | newStep | newTask | newSequence => cases slot
  | task | endTask | sequence | runStep | endStep =>
    obtain rfl := Option.some.inj slot
    rfl

variable (fixed : ∀ msg ∈ fixedMessages, good msg)
include fixed

theorem step_uses (plain : s.All Renderers.InPlain) (call : op.creates = false)
    (given : ∀ text ∈ op.texts, good text) (taken : s.step op = some next) :
    ∃ c c', Uses good s next op c c' := by
  obtain ⟨i, element, element', owned, w, slot, found, does, rfl⟩ := step_cases call taken
  have here := get?_eq_some found
  obtain ⟨c, c', renderers, renderers', operates⟩ :=
    does.operates fixed (fun _ => plain.get? found) given
  refine ⟨c, c', ?_, operates, i, element, element', owned, here, rfl, renderers, renderers'⟩
  rw [subject_of_slot slot, here]
  exact renderers

omit fixed in
theorem push_makes {element : Element} {w : Screen} (renderers : element.renderers? = some c)
    (subject : s.subject (s.push element w) op =
      (s.push element w).slots.getLast?.bind (·.element.renderers?))
    (gives : op.Gives c) (adds : s.screen.Adds c.all good w) :
    Makes good s (s.push element w) op c := by
  refine ⟨?_, gives, adds, element, rfl, renderers⟩
  rw [subject, push, List.getLast?_concat]
  exact renderers

theorem createPlain_makes (created : s.createPlain op = some next) :
    next = s ∨ ∃ c, Makes good s next op c := by
  cases op with
  | space => exact .inl (Option.some.inj created).symm
  | newStep style name autoRun =>
    obtain ⟨plain, name', style', adds⟩ := TaskEngine.step_plain (e := ⟨style, .plain⟩) rfl
      name autoRun s.screen
    rw [← Option.some.inj created]
    exact .inr ⟨_, push_makes rfl rfl (SessionOp.gives_step plain name' style') adds⟩
  | newTask style name steps autoIndent =>
    obtain ⟨⟨t, w⟩, started, eq⟩ := Option.bind_eq_some_iff.mp created
    obtain ⟨-, gives, adds⟩ := TaskBuilder.start_plain rfl fixed started
    rw [← Option.some.inj eq]
    refine .inr ⟨_, push_makes rfl rfl (SessionOp.gives_of_builder gives rfl ?_ ?_ ?_) adds⟩
    · exact List.mem_cons_self
    · exact List.subset_cons_of_subset _ (List.subset_append_left _ _)
    · intro step member
      exact List.mem_cons_of_mem _ (List.mem_append_right _ (List.mem_map_of_mem member))
  | newSequence style name steps autostart autoIndent =>
    obtain ⟨⟨q, w⟩, launched, eq⟩ := Option.bind_eq_some_iff.mp created
    rw [TaskSequenceBuilder.launch_eq] at launched
    obtain ⟨⟨t, w'⟩, started, sequence⟩ := Option.map_eq_some_iff.mp launched
    have mode := TaskSequenceBuilder.chain_mode ((TaskEngine.mk style .plain).sequence name) steps
    obtain ⟨name', style', names⟩ :=
      TaskSequenceBuilder.chain_inner ((TaskEngine.mk style .plain).sequence name) steps
    obtain ⟨opened, gives, adds⟩ := TaskBuilder.start_plain (mode.trans rfl) fixed started
    obtain ⟨same, more⟩ := TaskSequence.new_open opened fixed autostart w'
    rw [show TaskSequence.new t autostart w' = (q, w) from sequence] at same more
    rw [← Option.some.inj eq]
    refine .inr ⟨t.renderers, push_makes (congrArg some same) rfl
      (SessionOp.gives_of_builder gives (congrArg some name'.symm) ?_ ?_ ?_) (adds.trans more)⟩
    · rw [name']
      exact List.mem_cons_self
    · rw [style']
      exact List.subset_cons_of_subset _ (List.subset_append_left _ _)
    · intro step member
      have here : step.childName ∈ List.map BuilderStep.childName _ := List.mem_map_of_mem member
      rw [names] at here
      exact List.mem_cons_of_mem _ (List.mem_append_right _ here)
  | task | endTask | sequence | runStep | endStep => cases created

theorem stepPlain_cases (plain : s.All Renderers.InPlain) (given : ∀ text ∈ op.texts, good text)
    (taken : s.stepPlain op = some next) :
    next = s ∨ (∃ c c', Uses good s next op c c') ∨ ∃ c, Makes good s next op c := by
  unfold stepPlain at taken
  split at taken
  · rcases createPlain_makes fixed taken with same | makes
    · exact .inl same
    · exact .inr (.inr makes)
  · rename_i call
    exact .inr (.inl (step_uses fixed plain (by simpa using call) given taken))

omit fixed

theorem All.stepPlain {P : Renderers → Prop} (keeps : ∀ c c', P c → c'.Within c → P c')
    (gives : ∀ c, op.Gives c → P c) (all : s.All P)
    (cases : next = s ∨ (∃ c c', Uses good s next op c c') ∨ ∃ c, Makes good s next op c) :
    next.All P := by
  rcases cases with rfl | ⟨c, c', uses⟩ | ⟨c, makes⟩
  · exact all
  · obtain ⟨i, element, element', owned, found, slots, here, here'⟩ := uses.slots
    intro slot member
    rw [slots] at member
    rcases List.mem_or_eq_of_mem_set member with old | rfl
    · exact all slot old
    · obtain ⟨c₁, same, holds⟩ := all _ (List.mem_of_getElem? found)
      obtain rfl := Option.some.inj (here.symm.trans same)
      exact ⟨c', here', keeps c c' holds uses.operates.within⟩
  · obtain ⟨element, slots, here⟩ := makes.slots
    intro slot member
    rw [slots, List.mem_append, List.mem_singleton] at member
    rcases member with old | rfl
    · exact all slot old
    · exact ⟨c, here, gives c makes.gives⟩

theorem subject_adds {P : Renderers → Prop} (gives : ∀ c, op.Gives c → P c) (all : s.All P)
    (cases : next = s ∨ (∃ c c', Uses good s next op c c') ∨ ∃ c, Makes good s next op c) :
    next = s ∨ ∃ c, s.subject next op = some c ∧ P c ∧ s.screen.Adds c.all good next.screen := by
  rcases cases with same | ⟨c, c', uses⟩ | ⟨c, makes⟩
  · exact .inl same
  · obtain ⟨i, element, _, _, found, -, here, -⟩ := uses.slots
    obtain ⟨c₁, same, holds⟩ := all _ (List.mem_of_getElem? found)
    obtain rfl := Option.some.inj (here.symm.trans same)
    exact .inr ⟨c, uses.subject, holds, uses.operates.adds⟩
  · exact .inr ⟨c, makes.subject, gives c makes.gives, makes.adds⟩

end Session

namespace PlainConsole

variable {pc : PlainConsole} {s next : Session} {op : SessionOp}

theorem mem_handed {p : PlainLine} (member : p ∈ pc.handed s next op) :
    p.record ∈ next.screen.log.drop s.screen.log.length ∧ p.line ∈ p.record.written pc ∧
      p.task = (s.subject next op).bind (·.task? p.record.renderer) := by
  obtain ⟨r, rendered, here⟩ := List.mem_flatMap.mp member
  obtain ⟨line, written, rfl⟩ := List.mem_map.mp here
  exact ⟨rendered, written, rfl⟩

theorem transcript_each (Inv : Session → Prop) (Allowed : SessionOp → Prop)
    (Q : PlainLine → Prop)
    (step : ∀ s op next, Inv s → Allowed op → s.stepPlain op = some next →
      Inv next ∧ ∀ p ∈ pc.handed s next op, Q p)
    {ops : List SessionOp} (start : Inv s) (allowed : ∀ op ∈ ops, Allowed op) :
    ∀ p ∈ pc.transcript s ops, Q p := by
  induction ops generalizing s with
  | nil => simp [transcript]
  | cons op ops ih =>
    obtain ⟨first, rest⟩ := List.forall_mem_cons.mp allowed
    rw [transcript]
    split
    · rename_i next taken
      obtain ⟨inv, here⟩ := step s op next start first taken
      exact List.forall_mem_append.mpr ⟨here, ih inv rest⟩
    · simp

/-- The transcript has everything that the renderings of a run hand to the writer, in
their order. -/
theorem transcript_lines {t : Session} {ops : List SessionOp} (plain : s.All Renderers.InPlain)
    (reached : run Session.stepPlain s ops = some t) :
    ∃ added, t.screen.log = s.screen.log ++ added ∧
      (pc.transcript s ops).map (·.line) = added.flatMap (·.written pc) := by
  induction ops generalizing s with
  | nil => exact ⟨[], by simp [← Option.some.inj reached], rfl⟩
  | cons op ops ih =>
    obtain ⟨next, taken, rest⟩ := run_cons_eq_some.mp reached
    have any : ∀ msg ∈ fixedMessages, (fun _ : String => True) msg := fun _ _ => trivial
    have cases := Session.stepPlain_cases any plain (fun _ _ => trivial) taken
    have grows : ∃ added, next.screen.log = s.screen.log ++ added := by
      rcases Session.subject_adds (fun _ gives => gives.plain) plain cases with
        rfl | ⟨_, -, -, added, log, -⟩
      · exact ⟨[], by simp⟩
      · exact ⟨added, log⟩
    obtain ⟨first, log⟩ := grows
    obtain ⟨later, log', lines⟩ :=
      ih (plain.stepPlain (fun _ _ => .within) (fun _ gives => gives.plain) cases) rest
    refine ⟨first ++ later, by rw [log', log, List.append_assoc], ?_⟩
    have handed : (pc.handed s next op).map (·.line) = first.flatMap (·.written pc) := by
      simp [PlainConsole.handed, log, List.map_flatMap, Function.comp_def]
    simp only [transcript, taken]
    rw [List.map_append, handed, lines, List.flatMap_append]

end PlainConsole

theorem TaskRenderer.mem_texts (r : TaskRenderer) (e : Event) :
    ∀ text ∈ r.texts e, text = r.name ∨ text ∈ r.style.texts ∨ text ∈ e.messages := by
  cases e with
  | run msg =>
    cases arrow : r.drawArrow <;>
      simp +contextual [texts, TaskStyle.texts, Event.messages, arrow]
  | separator =>
    by_cases long : separatorLen < r.name.length <;> simp [texts, TaskStyle.texts, long]
  | _ => simp +contextual [texts, TaskStyle.texts, Event.messages]

/-- The texts of a call have no line breaks, and no code begins in the name of a task. -/
structure PlainConsole.Accepts (pc : PlainConsole) (op : SessionOp) : Prop where
  unbroken : ∀ text ∈ op.texts, Unbroken text
  leaves : ∀ name, op.taskName? = some name → pc.Leaves name

namespace Renderers

variable {pc : PlainConsole} {c c' : Renderers}

structure Fit (pc : PlainConsole) (c : Renderers) : Prop where
  plain : c.InPlain
  names : ∀ r ∈ c.all, Unbroken r.name
  style : ∀ r ∈ c.all, ∀ text ∈ r.style.texts, Unbroken text
  leaves : ∀ r ∈ c.children, pc.Leaves c.root.name

theorem Fit.within (h : c.Fit pc) (within : c'.Within c) : c'.Fit pc where
  plain := h.plain.within within
  names r member := h.names r (within.all member)
  style r member := h.style r (within.all member)
  leaves r member := within.root ▸ h.leaves r (within.children member)

theorem fit_of_gives {op : SessionOp} (gives : op.Gives c) (accepts : pc.Accepts op) :
    c.Fit pc where
  plain := gives.plain
  names := List.forall_mem_cons.mpr ⟨accepts.unbroken _ gives.root, fun r member =>
    accepts.unbroken _ (gives.names r member)⟩
  style r member text given := accepts.unbroken text (gives.style r member given)
  leaves r member := accepts.leaves _ (gives.task r member)

theorem unbroken_ciPrefixOf {name : String} : Unbroken (ciPrefixOf name) ↔ Unbroken name := by
  simp [Unbroken, ciPrefixOf]

theorem leaves_ciPrefixOf {name : String} (h : pc.Leaves name) : pc.Leaves (ciPrefixOf name) := by
  have bracketed : (ciPrefixOf name).toList = '[' :: (name.toList ++ [']']) := by
    simp [ciPrefixOf]
  rw [PlainConsole.Leaves, bracketed]
  exact .cons (by decide) (h.append (.cons (by decide) .nil))

theorem Fit.unbroken (h : c.Fit pc) {r : Record} (author : r.renderer ∈ c.all)
    (messages : ∀ msg ∈ r.event.messages, Unbroken msg) : ∀ text ∈ r.texts, Unbroken text := by
  have shown : ∀ text ∈ r.renderer.texts r.event, Unbroken text := by
    intro text member
    rcases r.renderer.mem_texts r.event text member with rfl | style | given
    · exact h.names _ author
    · exact h.style _ author text style
    · exact messages text given
  rcases List.mem_cons.mp author with root | child
  · rw [Record.texts_of_plain (root ▸ h.plain.root)]
    exact List.forall_mem_cons.mpr ⟨by decide, shown⟩
  · rw [Record.texts_of_plain (h.plain.children _ child)]
    exact List.forall_mem_cons.mpr
      ⟨unbroken_ciPrefixOf.mpr (h.names _ List.mem_cons_self), shown⟩

end Renderers

namespace PlainConsole

/-- Whatever is called, a string whose texts hold no codes is a single line exactly if
they have no line breaks; and if no call has a text with a line break or a task name with
a code, every string is a single line, and each one for a stage or a group begins with the
name of its task. -/
theorem plain_log_attributable (pc : PlainConsole) (clock : Nat → Instant)
    (ops : List SessionOp) :
    (∀ p ∈ pc.transcript (Session.new clock) ops, (∀ text ∈ p.record.texts, pc.Leaves text) →
      ('\n' ∉ p.line ↔ ∀ text ∈ p.record.texts, Unbroken text)) ∧
    ((∀ op ∈ ops, pc.Accepts op) → ∀ p ∈ pc.transcript (Session.new clock) ops,
      '\n' ∉ p.line ∧ ∀ name, p.task = some name → (ciPrefixOf name).toList <+: p.line) := by
  constructor
  · refine transcript_each (fun _ => True) (fun _ => True) _ (fun s op next _ _ _ => ?_) trivial
      (fun _ _ => trivial)
    exact ⟨trivial, fun p member => Record.unbroken_written_iff (mem_handed member).2.1⟩
  · refine fun accepts => transcript_each (·.All (Renderers.Fit pc)) pc.Accepts _
      (fun s op next fit accepts taken => ?_) (fun _ member => nomatch member) accepts
    have gives (c : Renderers) (gives : op.Gives c) := Renderers.fit_of_gives gives accepts
    have plain : s.All Renderers.InPlain := fun slot member =>
      (fit slot member).imp fun _ h => ⟨h.1, h.2.plain⟩
    have cases := Session.stepPlain_cases (by decide) plain accepts.unbroken taken
    refine ⟨fit.stepPlain (fun _ _ => .within) gives cases, fun p member => ?_⟩
    obtain ⟨rendered, written, task⟩ := mem_handed member
    rcases Session.subject_adds gives fit cases with rfl | ⟨c, subject, fit, added, log, all⟩
    · simp at rendered
    · rw [log, List.drop_left] at rendered
      obtain ⟨author, messages⟩ := all p.record rendered
      refine ⟨Record.unbroken_written written (fit.unbroken author messages), fun name own => ?_⟩
      rw [task, subject, Option.bind_some, Renderers.task?] at own
      obtain ⟨child, same⟩ := Option.ite_none_right_eq_some.mp own
      obtain rfl := Option.some.inj same
      exact Record.prefixed_written written (fit.plain.children _ child)
        (Renderers.leaves_ciPrefixOf (fit.leaves _ child))

def colourless : PlainConsole where
  toConsole := .colourless
  stripAnsiCodes := .nothing _ _
  unbroken_before _ := List.not_mem_nil
  unbroken_after _ := List.not_mem_nil
  unbroken_duration _ := show '\n' ∉ "[0.00s]".toList by decide

def deploys : List SessionOp :=
  [.newTask .plain "deploy" [.group (some "images"), .stage "pull" "pull images" true] true,
    .task 0 (.failById "pull" (.new "no such image\nin the registry"))]

theorem plain_log_attributable_deploys :
    (∃ p ∈ colourless.transcript (Session.new id) deploys, p.task = some "deploy") ∧
    ∀ p ∈ colourless.transcript (Session.new id) deploys,
      ('\n' ∉ p.line ↔ ∀ text ∈ p.record.texts, Unbroken text) ∧ '\n' ∉ p.line ∧
        ∀ name, p.task = some name → (ciPrefixOf name).toList <+: p.line := by
  have any (text : String) : colourless.Leaves text := fun _ => rfl
  have unbroken : ∀ op ∈ deploys, ∀ text ∈ op.texts, Unbroken text := by decide
  obtain ⟨exact_line, attributable⟩ := plain_log_attributable colourless id deploys
  refine ⟨by decide, fun p member => ⟨exact_line p member fun text _ => any text, ?_⟩⟩
  exact attributable (fun op called => ⟨unbroken op called, fun name _ => any name⟩) p member

/-- The strings for the stages and groups of a task are rendered with its prefix, and the
others by the root of a task or by a step. -/
theorem transcript_strategy (pc : PlainConsole) (clock : Nat → Instant) (ops : List SessionOp) :
    ∀ p ∈ pc.transcript (Session.new clock) ops,
      p.record.renderer.strategy = .plain (p.task.elim "" ciPrefixOf) := by
  refine transcript_each (·.All Renderers.InPlain) (fun _ => True) _
    (fun s op next plain _ taken => ?_) (fun _ member => nomatch member) (fun _ _ => trivial)
  have gives (c : Renderers) (gives : op.Gives c) := gives.plain
  have any : ∀ msg ∈ fixedMessages, (fun _ : String => True) msg := fun _ _ => trivial
  have cases := Session.stepPlain_cases any plain (fun _ _ => trivial) taken
  refine ⟨plain.stepPlain (fun _ _ => .within) gives cases, fun p member => ?_⟩
  obtain ⟨rendered, -, task⟩ := mem_handed member
  rcases Session.subject_adds gives plain cases with rfl | ⟨c, subject, plain, added, log, all⟩
  · simp at rendered
  · rw [log, List.drop_left] at rendered
    rw [task, subject, Option.bind_some, Renderers.task?]
    split
    · rename_i child
      exact plain.children _ child
    · rename_i other
      rcases List.mem_cons.mp (all p.record rendered).1 with root | child
      · rw [root]
        exact plain.root
      · exact absurd child other

/-- The name of a stage with a line break is written as it is. -/
theorem plain_log_breaks :
    ¬∀ p ∈ colourless.transcript (Session.new id)
        [.newTask .plain "deploy" [.stage "pull" "pull\nimages" false] false],
      '\n' ∉ p.line := by
  decide

end PlainConsole

end KnotOps.Terminal
