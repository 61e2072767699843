import KnotOps.Text
import KnotOps.Terminal.Drawing

/-! What a plain renderer hands to its writer.
Every method formats its content on its own and passes it to `write_plain_line`,
which puts the name of the task before it and strips the codes; only an error report
is broken into lines first.  What `console` takes for a code is up to it, but a code
begins with the escape character or with its one-character form. -/

namespace KnotOps.Terminal

open Text

def beginsCode (c : Char) : Prop := c = '\x1b' ∨ c = '\x9b'

instance : DecidablePred beginsCode := fun _ => inferInstanceAs (Decidable (_ ∨ _))

/-- `console`, and how durations and error reports are formatted; the colours and the
durations have no line break. -/
structure PlainConsole extends Console where
  stripAnsiCodes : Eraser Char beginsCode
  unbroken_before : ∀ p, '\n' ∉ before p
  unbroken_after : ∀ p, '\n' ∉ after p
  unbroken_duration : ∀ elapsed, '\n' ∉ duration elapsed

namespace PlainConsole

variable (c : PlainConsole)

def plainLine (ciPrefix : String) (content : List Char) : List Char :=
  c.stripAnsiCodes.erase
    (if ciPrefix = "" then content else ciPrefix.toList ++ ' ' :: content)

def Leaves (text : String) : Prop := c.stripAnsiCodes.Leaves text.toList

end PlainConsole

def Unbroken (text : String) : Prop := '\n' ∉ text.toList

instance (text : String) : Decidable (Unbroken text) := inferInstanceAs (Decidable (¬_))

namespace TaskRenderer

variable (c : PlainConsole) (r : TaskRenderer)

def plainPrefixPart : List Char :=
  if r.drawArrow then r.bakedRunningIndent ++ r.style.prefixActive.toList
  else r.bakedRunningIndent

def statusMsg : Option String → List Char
  | some msg => ' ' :: '(' :: (msg.toList ++ [')'])
  | none => []

/-- What each method passes to `write_plain_line`. -/
def plainContents : Event → List (List Char)
  | .title => [r.bakedIndent ++ r.style.prefixTitle.toList ++ ' ' :: r.name.toList]
  | .run msg =>
    [r.plainPrefixPart ++ r.style.runFrame.toList ++ ' ' :: r.name.toList ++ statusMsg msg]
  | .wait msg => [r.bakedIndent ++ r.style.prefixWait.toList ++ ' ' :: r.waitMessage msg]
  | .skip msg =>
    [r.bakedIndent ++ r.style.prefixSkip.toList ++ ' ' :: r.name.toList ++
      ' ' :: '(' :: msg.toList ++ [')']]
  | .success msg elapsed =>
    [r.bakedIndent ++ r.style.prefixSuccess.toList ++ ' ' :: r.name.toList ++
      ' ' :: '(' :: msg.toList ++ ')' :: ' ' :: formattedDuration c.toConsole elapsed]
  | .fail elapsed =>
    [r.bakedIndent ++ r.style.prefixFail.toList ++ ' ' :: r.name.toList ++
      " (fail) ".toList ++ formattedDuration c.toConsole elapsed]
  | .errorReport error =>
    lines (c.stripAnsiCodes.erase (c.print error r.indentSpaces))
  | .separator => [r.dividerRaw]

/-- The texts that each method is given, as far as it writes them unbroken. -/
def texts : Event → List String
  | .title => [r.style.prefixTitle, r.name]
  | .run msg =>
    (if r.drawArrow then [r.style.prefixActive] else []) ++
      [r.style.runFrame, r.name] ++ msg.toList
  | .wait msg => [r.style.prefixWait, r.name] ++ msg.toList
  | .skip msg => [r.style.prefixSkip, r.name, msg]
  | .success msg _ => [r.style.prefixSuccess, r.name, msg]
  | .fail _ => [r.style.prefixFail, r.name]
  | .errorReport _ => []
  | .separator =>
    if separatorLen < r.name.length then [r.name] else [r.style.divider, r.name]

end TaskRenderer

namespace Record

/-- The strings that a rendering hands to `PlainWriter::write_line`. -/
def written (c : PlainConsole) (r : Record) : List (List Char) :=
  match r.renderer.strategy with
  | .plain ciPrefix => (r.renderer.plainContents c r.event).map (c.plainLine ciPrefix)
  | .interactive _ _ => []

def texts (r : Record) : List String :=
  match r.renderer.strategy with
  | .plain ciPrefix => ciPrefix :: r.renderer.texts r.event
  | .interactive _ _ => r.renderer.texts r.event

end Record

theorem mem_spaces {c : Char} {n : Nat} : c ∈ spaces n ↔ n ≠ 0 ∧ c = ' ' := List.mem_replicate

theorem mem_repeated {text : List Char} {n : Nat} {c : Char} :
    c ∈ repeated text n ↔ n ≠ 0 ∧ c ∈ text := by
  simp only [repeated, List.mem_flatten, List.mem_replicate]
  constructor
  · rintro ⟨copy, ⟨more, rfl⟩, here⟩
    exact ⟨more, here⟩
  · rintro ⟨more, here⟩
    exact ⟨text, ⟨more, rfl⟩, here⟩

namespace TaskRenderer

variable {c : PlainConsole} {r : TaskRenderer}

@[simp] theorem unbroken_bakedIndent : '\n' ∉ r.bakedIndent := by
  simp [bakedIndent, mem_spaces]

@[simp] theorem unbroken_bakedRunningIndent : '\n' ∉ r.bakedRunningIndent := by
  unfold bakedRunningIndent
  split
  · simp [mem_spaces]
  · exact unbroken_bakedIndent

@[simp] theorem unbroken_formattedDuration (elapsed : Duration) :
    '\n' ∉ formattedDuration c.toConsole elapsed := by
  simp [formattedDuration, Console.paint, c.unbroken_before, c.unbroken_after,
    c.unbroken_duration]

theorem break_dividerRaw :
    '\n' ∈ r.dividerRaw ↔ ∃ text ∈ r.texts .separator, ¬Unbroken text := by
  have divided {n : Nat} (more : n ≠ 0) :
      '\n' ∈ repeated r.style.divider.toList n ↔ '\n' ∈ r.style.divider.toList := by
    rw [mem_repeated, and_iff_right more]
  have short (h : ¬separatorLen < r.name.toList.length) :
      r.texts .separator = [r.style.divider, r.name] := if_neg (by rwa [← String.length_toList])
  simp only [dividerRaw]
  split_ifs with named long
  · have texts : r.texts .separator = [r.name] := if_pos (by rwa [← String.length_toList])
    simp [texts, Unbroken]
  · have begins : headerStartIdx - headerSpaceSize ≠ 0 := by decide
    have tail : '\n' ∈ r.style.divider.toList ∨ '\n' ∈ r.name.toList ∨
        '\n' ∈ repeated r.style.divider.toList (separatorLen -
          (headerStartIdx - headerSpaceSize + 2 * headerSpaceSize + r.name.toList.length)) ↔
        '\n' ∈ r.style.divider.toList ∨ '\n' ∈ r.name.toList := by
      rw [← or_assoc, or_iff_left_of_imp fun member => .inl (mem_repeated.mp member).2]
    simp [short long, Unbroken, mem_spaces, divided begins, tail]
  · have unnamed : r.name.toList = [] := not_not.mp named
    have all : separatorLen ≠ 0 := by decide
    simp [short (by simp [unnamed]), Unbroken, unnamed, divided all]

theorem break_content_iff {e : Event} {content : List Char}
    (member : content ∈ r.plainContents c e) :
    '\n' ∈ content ↔ ∃ text ∈ r.texts e, ¬Unbroken text := by
  cases e with
  | title | skip | success | fail =>
    obtain rfl := List.mem_singleton.mp member
    simp [texts, Unbroken]
  | wait msg =>
    obtain rfl := List.mem_singleton.mp member
    cases msg <;> simp [texts, Unbroken, waitMessage]
  | run msg =>
    obtain rfl := List.mem_singleton.mp member
    cases msg <;> cases arrow : r.drawArrow <;>
      simp [texts, Unbroken, statusMsg, plainPrefixPart, arrow]
  | errorReport error => simp [texts, unbroken_of_mem_lines member]
  | separator =>
    obtain rfl := List.mem_singleton.mp member
    exact break_dividerRaw

theorem leaves_spaces (n : Nat) : c.stripAnsiCodes.Leaves (spaces n) :=
  Eraser.leaves_of_free fun _ member => (mem_spaces.mp member).2 ▸ by decide

theorem leaves_bakedIndent : c.stripAnsiCodes.Leaves r.bakedIndent := leaves_spaces _

theorem leaves_bakedRunningIndent : c.stripAnsiCodes.Leaves r.bakedRunningIndent := by
  unfold bakedRunningIndent
  split
  · exact leaves_spaces _
  · exact leaves_bakedIndent

theorem leaves_repeated {text : String} (h : c.Leaves text) (n : Nat) :
    c.stripAnsiCodes.Leaves (repeated text.toList n) :=
  Eraser.Leaves.flatten fun _ member => List.eq_of_mem_replicate member ▸ h

theorem leaves_named {text : String} (h : c.Leaves text) (name : c.Leaves r.name) :
    c.stripAnsiCodes.Leaves (r.bakedIndent ++ text.toList ++ ' ' :: r.name.toList) :=
  (leaves_bakedIndent.append h).append (name.cons (by decide))

theorem leaves_bracketed {msg : String} (h : c.Leaves msg) :
    c.stripAnsiCodes.Leaves (' ' :: '(' :: (msg.toList ++ [')'])) :=
  ((h.append (.cons (by decide) .nil)).cons (by decide)).cons (by decide)

theorem leaves_statusMsg {msg : Option String} (h : ∀ text ∈ msg, c.Leaves text) :
    c.stripAnsiCodes.Leaves (statusMsg msg) := by
  cases msg with
  | none => exact .nil
  | some msg => exact leaves_bracketed (h msg rfl)

theorem waitMessage_eq (msg : Option String) :
    r.waitMessage msg = r.name.toList ++ statusMsg msg := by
  cases msg with
  | none => exact (List.append_nil _).symm
  | some msg => rfl

theorem leaves_dividerRaw (leaves : ∀ text ∈ r.texts .separator, c.Leaves text) :
    c.stripAnsiCodes.Leaves r.dividerRaw := by
  have short (h : ¬separatorLen < r.name.toList.length) :
      r.texts .separator = [r.style.divider, r.name] := if_neg (by rwa [← String.length_toList])
  simp only [dividerRaw]
  split_ifs with named long
  · have texts : r.texts .separator = [r.name] := if_pos (by rwa [← String.length_toList])
    exact leaves_bakedIndent.append (leaves r.name (by simp [texts]))
  · have divider := leaves r.style.divider (by simp [short long])
    have name := leaves r.name (by simp [short long])
    exact ((((leaves_bakedIndent.append (leaves_repeated divider _)).append
      (leaves_spaces _)).append name).append (leaves_spaces _)).append (leaves_repeated divider _)
  · have unnamed : r.name.toList = [] := not_not.mp named
    have divider := leaves r.style.divider (by simp [short (by simp [unnamed])])
    exact leaves_bakedIndent.append (leaves_repeated divider _)

theorem content_split {e : Event} {content : List Char} (member : content ∈ r.plainContents c e)
    (leaves : ∀ text ∈ r.texts e, c.Leaves text) :
    ∃ shown tail, content = shown ++ tail ∧ c.stripAnsiCodes.Leaves shown ∧ '\n' ∉ tail := by
  have whole (h : c.stripAnsiCodes.Leaves content) :
      ∃ shown tail, content = shown ++ tail ∧ c.stripAnsiCodes.Leaves shown ∧ '\n' ∉ tail :=
    ⟨content, [], (List.append_nil _).symm, h, List.not_mem_nil⟩
  cases e with
  | title =>
    obtain rfl := List.mem_singleton.mp member
    exact whole (leaves_named (leaves _ (by simp [texts])) (leaves _ (by simp [texts])))
  | run msg =>
    obtain rfl := List.mem_singleton.mp member
    have arrow : c.stripAnsiCodes.Leaves r.plainPrefixPart := by
      unfold plainPrefixPart
      split
      · rename_i drawn
        exact leaves_bakedRunningIndent.append (leaves _ (by simp [texts, drawn]))
      · exact leaves_bakedRunningIndent
    have frame := leaves r.style.runFrame (by simp [texts])
    have name := leaves r.name (by simp [texts])
    have status : c.stripAnsiCodes.Leaves (statusMsg msg) :=
      leaves_statusMsg fun text given => leaves text (by simp [texts, Option.mem_def.mp given])
    exact whole (((arrow.append frame).append (name.cons (by decide))).append status)
  | wait msg =>
    obtain rfl := List.mem_singleton.mp member
    have named := leaves_named (r := r) (leaves r.style.prefixWait (by simp [texts]))
      (leaves r.name (by simp [texts]))
    have status : c.stripAnsiCodes.Leaves (statusMsg msg) :=
      leaves_statusMsg fun text given => leaves text (by simp [texts, Option.mem_def.mp given])
    exact whole (by simpa [waitMessage_eq] using named.append status)
  | skip msg =>
    obtain rfl := List.mem_singleton.mp member
    have named := leaves_named (r := r) (leaves r.style.prefixSkip (by simp [texts]))
      (leaves r.name (by simp [texts]))
    have status := leaves_bracketed (leaves msg (by simp [texts]))
    exact whole (by simpa using named.append status)
  | success msg elapsed =>
    obtain rfl := List.mem_singleton.mp member
    have named := leaves_named (r := r) (leaves r.style.prefixSuccess (by simp [texts]))
      (leaves r.name (by simp [texts]))
    have status := leaves_bracketed (leaves msg (by simp [texts]))
    exact ⟨_, ' ' :: formattedDuration c.toConsole elapsed, by simp, named.append status, by simp⟩
  | fail elapsed =>
    obtain rfl := List.mem_singleton.mp member
    have named := leaves_named (r := r) (leaves r.style.prefixFail (by simp [texts]))
      (leaves r.name (by simp [texts]))
    exact ⟨_, " (fail) ".toList ++ formattedDuration c.toConsole elapsed, by simp, named, by simp⟩
  | errorReport error =>
    exact ⟨[], content, rfl, Eraser.Leaves.nil, unbroken_of_mem_lines member⟩
  | separator =>
    obtain rfl := List.mem_singleton.mp member
    exact whole (leaves_dividerRaw leaves)

end TaskRenderer

namespace Record

variable {c : PlainConsole} {r : Record} {line : List Char}

theorem mem_written :
    line ∈ r.written c ↔ ∃ ciPrefix, r.renderer.strategy = .plain ciPrefix ∧
      ∃ content ∈ r.renderer.plainContents c r.event, c.plainLine ciPrefix content = line := by
  unfold written
  split <;> simp_all

theorem texts_of_plain {ciPrefix : String} (strategy : r.renderer.strategy = .plain ciPrefix) :
    r.texts = ciPrefix :: r.renderer.texts r.event := by
  simp [texts, strategy]

theorem written_unstripped (member : line ∈ r.written c) :
    ∃ raw, line = c.stripAnsiCodes.erase raw ∧ ('\n' ∈ raw ↔ ∃ text ∈ r.texts, ¬Unbroken text) ∧
      ((∀ text ∈ r.texts, c.Leaves text) →
        ∃ shown tail, raw = shown ++ tail ∧ c.stripAnsiCodes.Leaves shown ∧ '\n' ∉ tail) := by
  obtain ⟨ciPrefix, strategy, content, here, rfl⟩ := mem_written.mp member
  refine ⟨_, rfl, ?_, fun leaves => ?_⟩
  · simp only [texts_of_plain strategy, List.mem_cons, exists_eq_or_imp]
    rw [← TaskRenderer.break_content_iff here]
    split_ifs with unnamed
    · simp [unnamed, Unbroken]
    · simp [Unbroken]
  · rw [texts_of_plain strategy, List.forall_mem_cons] at leaves
    obtain ⟨shown, tail, split, before, after⟩ := TaskRenderer.content_split here leaves.2
    split_ifs with unnamed
    · exact ⟨shown, tail, split, before, after⟩
    · refine ⟨ciPrefix.toList ++ ' ' :: shown, tail, by simp [split], ?_, after⟩
      exact leaves.1.append (before.cons (by decide))

theorem unbroken_written (member : line ∈ r.written c)
    (unbroken : ∀ text ∈ r.texts, Unbroken text) : '\n' ∉ line := by
  obtain ⟨raw, rfl, breaks, -⟩ := written_unstripped member
  refine Eraser.notMem_erase fun broken => ?_
  obtain ⟨text, given, here⟩ := breaks.mp broken
  exact here (unbroken text given)

theorem unbroken_written_iff (member : line ∈ r.written c)
    (leaves : ∀ text ∈ r.texts, c.Leaves text) :
    '\n' ∉ line ↔ ∀ text ∈ r.texts, Unbroken text := by
  obtain ⟨raw, rfl, breaks, split⟩ := written_unstripped member
  obtain ⟨shown, tail, rfl, before, after⟩ := split leaves
  rw [before.mem_erase_iff after, breaks]
  simp

theorem prefixed_written {ciPrefix : String} (member : line ∈ r.written c)
    (strategy : r.renderer.strategy = .plain ciPrefix) (leaves : c.Leaves ciPrefix) :
    ciPrefix.toList <+: line := by
  obtain ⟨ciPrefix', strategy', content, -, rfl⟩ := mem_written.mp member
  obtain rfl := TaskRenderingStrategy.plain.inj (strategy.symm.trans strategy')
  unfold PlainConsole.plainLine
  split_ifs with unnamed
  · simp [unnamed]
  · exact leaves.isPrefix _

end Record

end KnotOps.Terminal
