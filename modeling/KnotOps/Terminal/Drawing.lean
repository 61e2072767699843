import KnotOps.Template
import KnotOps.Terminal.Builder

/-! What an interactive renderer hands to its bar, and what the bar shows.
Most texts go into the prefix and the message of the bar, which are not parsed;
the divider of a separator and the arrow of a running stage are put into the
template as they are.  indicatif shows blanks in place of tabs, of its template
language only the three placeholders of the renderers matter, the codes of
`console` have no braces and no tabs, and how durations and error reports are
formatted is left open. -/

namespace KnotOps.Terminal

open Template

inductive Paint where
  | dim
  | cyan
  | green
  | red
deriving DecidableEq, Repr

structure Console where
  before : Paint → List Char
  after : Paint → List Char
  before_free : ∀ p, BraceFree (before p) ∧ TabFree (before p)
  after_free : ∀ p, BraceFree (after p) ∧ TabFree (after p)
  /-- The text of `format_duration`, before it is dimmed. -/
  duration : Duration → List Char
  duration_free : ∀ elapsed, TabFree (duration elapsed)
  /-- `ErrorReport::print` with the indent. -/
  print : ErrorReport → Nat → List Char

def Console.paint (c : Console) (p : Paint) (text : List Char) : List Char :=
  c.before p ++ text ++ c.after p

theorem Console.braceFree_paint {c : Console} {p : Paint} {text : List Char} :
    BraceFree (c.paint p text) ↔ BraceFree text := by
  simp [paint, c.before_free p, c.after_free p]

@[simp] theorem Console.tabFree_paint {c : Console} {p : Paint} {text : List Char} :
    TabFree (c.paint p text) ↔ TabFree text := by
  simp [paint, c.before_free p, c.after_free p]

structure Drawing where
  template : List Char
  prefixText : Option (List Char)
  message : Option (List Char)
deriving DecidableEq, Repr

def spaces (n : Nat) : List Char := List.replicate n ' '

def repeated (text : List Char) (n : Nat) : List Char := (List.replicate n text).flatten

def separatorLen : Nat := 100

def headerStartIdx : Nat := 10

def headerSpaceSize : Nat := 2

namespace TaskRenderer

variable (c : Console) (r : TaskRenderer)

def bakedIndent : List Char := spaces r.indentSpaces

def drawArrow : Bool := 2 < r.indentSpaces

def bakedRunningIndent : List Char :=
  if r.drawArrow then spaces (r.indentSpaces - r.style.prefixActive.length) else r.bakedIndent

def runPrefixPart : List Char :=
  if r.drawArrow then r.bakedRunningIndent ++ c.paint .dim r.style.prefixActive.toList
  else r.bakedRunningIndent

def runMessage : Option String → List Char
  | some msg => r.name.toList ++ ' ' :: c.paint .dim ('(' :: (msg.toList ++ [')']))
  | none => r.name.toList

def waitMessage : Option String → List Char
  | some msg => r.name.toList ++ ' ' :: '(' :: (msg.toList ++ [')'])
  | none => r.name.toList

def formattedDuration (elapsed : Duration) : List Char := c.paint .dim (c.duration elapsed)

/-- The text of a separator, which plain mode writes as it is. -/
def dividerRaw : List Char :=
  let name := r.name.toList
  let divChar := r.style.divider.toList
  if name ≠ [] then
    if separatorLen < name.length then r.bakedIndent ++ name
    else
      let startDividerLen := headerStartIdx - headerSpaceSize
      let consumedLen := startDividerLen + 2 * headerSpaceSize + name.length
      let remainingDividerLen := separatorLen - consumedLen
      r.bakedIndent ++ repeated divChar startDividerLen ++ spaces headerSpaceSize ++ name ++
        spaces headerSpaceSize ++ repeated divChar remainingDividerLen
  else r.bakedIndent ++ repeated divChar separatorLen

def barTemplate : List Char := r.bakedIndent ++ "\x7bprefix\x7d \x7bmsg\x7d".toList

/-- What each method sets on the bar; an error report has a bar of its own. -/
def draw : Event → Drawing
  | .title => ⟨r.barTemplate, some (c.paint .cyan r.style.prefixTitle.toList), some r.name.toList⟩
  | .run msg =>
    ⟨r.runPrefixPart c ++ "\x7bspinner:.cyan\x7d  \x7bmsg\x7d".toList, none,
      some (r.runMessage c msg)⟩
  | .wait msg =>
    ⟨r.barTemplate, some (c.paint .dim r.style.prefixWait.toList),
      some (c.paint .dim (r.waitMessage msg))⟩
  | .skip msg =>
    ⟨r.barTemplate, some (c.paint .dim r.style.prefixSkip.toList),
      some (r.name.toList ++ ' ' :: c.paint .dim ('(' :: (msg.toList ++ [')'])))⟩
  | .success msg elapsed =>
    ⟨r.barTemplate, some (c.paint .green r.style.prefixSuccess.toList),
      some (r.name.toList ++ ' ' :: c.paint .green ('(' :: (msg.toList ++ [')'])) ++
        ' ' :: formattedDuration c elapsed)⟩
  | .fail elapsed =>
    ⟨r.barTemplate, some (c.paint .red r.style.prefixFail.toList),
      some (r.name.toList ++ ' ' :: c.paint .red "(fail)".toList ++
        ' ' :: formattedDuration c elapsed)⟩
  | .errorReport error => ⟨"\x7bmsg\x7d".toList, none, some (c.print error r.indentSpaces)⟩
  | .separator => ⟨c.paint .dim r.dividerRaw, none, none⟩

end TaskRenderer

def prefixKey : Key := ⟨"prefix".toList, by decide, by decide⟩

def msgKey : Key := ⟨"msg".toList, by decide, by decide⟩

def spinnerKey : Key := ⟨"spinner:.cyan".toList, by decide, by decide⟩

/-- The grammar of `ProgressStyle::with_template`. -/
abbrev StyleGrammar : Type := Grammar [prefixKey, msgKey, spinnerKey]

/-- The values that placeholders can have after the drawing. -/
structure Drawing.Sets (d : Drawing) (values : Key → List Char) : Prop where
  prefixText : ∀ text, d.prefixText = some text → values prefixKey = expandTabs text
  message : ∀ text, d.message = some text → values msgKey = expandTabs text

def parenthesised (msg : String) : List Char := '(' :: (msg.toList ++ [')'])

/-- The name of a group between dividers, as far as there is room for them. -/
def TaskRenderer.header (r : TaskRenderer) : List Char :=
  let name := r.name.toList
  let divider := r.style.divider.toList
  if name = [] then repeated divider 100
  else if name.length ≤ 100 then
    repeated divider 8 ++ "  ".toList ++ name ++ "  ".toList ++ repeated divider (88 - name.length)
  else name

/-- The line that a call is meant to show, with a frame of the spinner: the name, the
message and the prefix of the style, as they are. -/
def TaskRenderer.line (c : Console) (r : TaskRenderer) (frame : List Char) :
    Event → List Char
  | .title =>
    spaces r.indentSpaces ++ c.paint .cyan r.style.prefixTitle.toList ++ ' ' :: r.name.toList
  | .run msg =>
    (if 2 < r.indentSpaces then
      spaces (r.indentSpaces - r.style.prefixActive.length) ++
        c.paint .dim r.style.prefixActive.toList
    else spaces r.indentSpaces) ++ frame ++ ' ' :: ' ' :: r.name.toList ++
      (match msg with
      | some msg => ' ' :: c.paint .dim (parenthesised msg)
      | none => [])
  | .wait msg =>
    spaces r.indentSpaces ++ c.paint .dim r.style.prefixWait.toList ++
      ' ' :: c.paint .dim (r.name.toList ++
        (match msg with
        | some msg => ' ' :: parenthesised msg
        | none => []))
  | .skip msg =>
    spaces r.indentSpaces ++ c.paint .dim r.style.prefixSkip.toList ++ ' ' :: r.name.toList ++
      ' ' :: c.paint .dim (parenthesised msg)
  | .success msg elapsed =>
    spaces r.indentSpaces ++ c.paint .green r.style.prefixSuccess.toList ++ ' ' :: r.name.toList ++
      ' ' :: c.paint .green (parenthesised msg) ++ ' ' :: c.paint .dim (c.duration elapsed)
  | .fail elapsed =>
    spaces r.indentSpaces ++ c.paint .red r.style.prefixFail.toList ++ ' ' :: r.name.toList ++
      ' ' :: c.paint .red "(fail)".toList ++ ' ' :: c.paint .dim (c.duration elapsed)
  | .errorReport error => c.print error r.indentSpaces
  | .separator => c.paint .dim (spaces r.indentSpaces ++ r.header)

/-- The template of the call is not malformed, and its bar shows the line, whatever the
placeholders that the call does not set stand for. -/
def TaskRenderer.ShowsVerbatim (g : StyleGrammar) (c : Console) (r : TaskRenderer) (e : Event) :
    Prop :=
  g.Reads (r.draw c e).template (r.draw c e).Sets fun values => r.line c (values spinnerKey) e

namespace TaskRenderer

variable (c : Console) (r : TaskRenderer)

def shownTexts : Event → List (List Char)
  | .title => [r.style.prefixTitle.toList, r.name.toList]
  | .run msg =>
    (if r.drawArrow then [r.style.prefixActive.toList] else []) ++
      r.name.toList :: msg.toList.map String.toList
  | .wait msg => r.style.prefixWait.toList :: r.name.toList :: msg.toList.map String.toList
  | .skip msg => [r.style.prefixSkip.toList, r.name.toList, msg.toList]
  | .success msg _ => [r.style.prefixSuccess.toList, r.name.toList, msg.toList]
  | .fail _ => [r.style.prefixFail.toList, r.name.toList]
  | .errorReport error => [c.print error r.indentSpaces]
  | .separator =>
    r.name.toList :: if separatorLen < r.name.length then [] else [r.style.divider.toList]

def splicedTexts : Event → List (List Char)
  | .run _ => if r.drawArrow then [r.style.prefixActive.toList] else []
  | .separator => r.shownTexts c .separator
  | _ => []

/-- No text has a tab, and none that is put into the template has a brace. -/
def Inert (e : Event) : Prop :=
  (∀ text ∈ r.splicedTexts c e, BraceFree text) ∧ ∀ text ∈ r.shownTexts c e, TabFree text

instance (e : Event) : Decidable (r.Inert c e) := inferInstanceAs (Decidable (_ ∧ _))

end TaskRenderer

def barPieces : List Piece := [.placeholder prefixKey, .char ' ', .placeholder msgKey]

def runPieces : List Piece :=
  [.placeholder spinnerKey, .char ' ', .char ' ', .placeholder msgKey]

theorem braceFree_spaces (n : Nat) : BraceFree (spaces n) := by
  induction n with
  | zero => rfl
  | succ n ih => exact braceFree_cons.mpr ⟨rfl, ih⟩

@[simp] theorem tabFree_spaces (n : Nat) : TabFree (spaces n) :=
  fun member => absurd (List.eq_of_mem_replicate member) (by decide)

theorem free_repeated {P : List Char → Prop} (nil : P [])
    (append : ∀ first second, P (first ++ second) ↔ P first ∧ P second) {text : List Char}
    {n : Nat} : P (repeated text n) ↔ 0 < n → P text := by
  induction n with
  | zero => exact iff_of_true nil fun positive => absurd positive (Nat.lt_irrefl 0)
  | succ n ih =>
    have more : repeated text (n + 1) = text ++ repeated text n := rfl
    rw [more, append, ih]
    constructor
    · rintro ⟨free, -⟩ -
      exact free
    · intro free
      exact ⟨free n.succ_pos, fun _ => free n.succ_pos⟩

namespace TaskRenderer

variable (g : StyleGrammar) (c : Console) (r : TaskRenderer)

theorem braceFree_bakedIndent : BraceFree r.bakedIndent := braceFree_spaces r.indentSpaces

theorem free_dividerRaw {P : List Char → Prop}
    (append : ∀ first second, P (first ++ second) ↔ P first ∧ P second)
    (blank : ∀ n, P (spaces n)) :
    P r.dividerRaw ↔ ∀ text ∈ r.shownTexts c .separator, P text := by
  have nil : P [] := blank 0
  have indent : P r.bakedIndent := blank r.indentSpaces
  have lengths : r.name.length = r.name.toList.length := String.length_toList.symm
  simp only [dividerRaw, shownTexts, lengths]
  split_ifs with named long long
  · simp [append, indent]
  · have begins : 0 < headerStartIdx - headerSpaceSize := by decide
    simp only [append, free_repeated nil append, List.forall_mem_cons]
    constructor
    · rintro ⟨⟨⟨⟨⟨-, divider⟩, -⟩, name⟩, -⟩, -⟩
      exact ⟨name, divider begins, List.forall_mem_nil _⟩
    · rintro ⟨name, divider, -⟩
      exact ⟨⟨⟨⟨⟨indent, fun _ => divider⟩, blank _⟩, name⟩, blank _⟩, fun _ => divider⟩
  · simp [not_not.mp named, separatorLen] at long
  · have unnamed : r.name.toList = [] := not_not.mp named
    rw [append, free_repeated nil append, unnamed]
    constructor
    · rintro ⟨-, divider⟩
      simpa [nil] using divider (by decide)
    · intro all
      exact ⟨indent, fun _ => all _ (by simp)⟩

theorem braceFree_runPrefixPart :
    BraceFree (r.runPrefixPart c) ↔
      ∀ text ∈ r.splicedTexts c (.run none), BraceFree text := by
  have indent : BraceFree r.bakedRunningIndent := by
    unfold bakedRunningIndent
    split_ifs
    · exact braceFree_spaces _
    · exact r.braceFree_bakedIndent
  unfold runPrefixPart splicedTexts
  split_ifs with arrow
  · simp [indent, Console.braceFree_paint]
  · simp [indent]

theorem line_run (frame : List Char) (msg : Option String) :
    r.line c frame (.run msg) = r.runPrefixPart c ++ frame ++ ' ' :: ' ' :: r.runMessage c msg := by
  by_cases arrow : 2 < r.indentSpaces <;> cases msg <;>
    simp [line, runPrefixPart, bakedRunningIndent, bakedIndent, drawArrow, runMessage,
      parenthesised, arrow]

/-- A separator is to show what plain mode writes, dimmed. -/
theorem line_separator (frame : List Char) :
    r.line c frame .separator = c.paint .dim r.dividerRaw := by
  have blanks : spaces headerSpaceSize = "  ".toList := by decide
  have room : separatorLen -
      (headerStartIdx - headerSpaceSize + 2 * headerSpaceSize + r.name.toList.length) =
        88 - r.name.toList.length := by
    simp only [separatorLen, headerStartIdx, headerSpaceSize]
    omega
  simp only [line, header, dividerRaw, room, blanks, bakedIndent]
  by_cases empty : r.name.toList = []
  · simp [empty, separatorLen]
  · by_cases long : r.name.toList.length ≤ 100
    · have short : ¬ separatorLen < r.name.toList.length := Nat.not_lt.mpr long
      simp only [if_neg empty, if_pos long, if_pos empty, if_neg short, ne_eq,
        headerStartIdx, headerSpaceSize, List.append_assoc]
    · have beyond : separatorLen < r.name.toList.length := Nat.lt_of_not_le long
      simp only [if_neg empty, if_neg long, if_pos empty, if_pos beyond, ne_eq]

theorem tabFree_line (e : Event) :
    TabFree (r.line c [] e) ↔ ∀ text ∈ r.shownTexts c e, TabFree text := by
  cases e with
  | title | skip | success | fail => simp [line, shownTexts, parenthesised, c.duration_free]
  | wait msg => cases msg <;> simp [line, shownTexts, parenthesised]
  | run msg =>
    by_cases arrow : 2 < r.indentSpaces <;> cases msg <;>
      simp [line, shownTexts, parenthesised, drawArrow, arrow]
  | errorReport error => simp [line, shownTexts]
  | separator =>
    rw [line_separator, Console.tabFree_paint]
    exact r.free_dividerRaw c (fun _ _ => tabFree_append) tabFree_spaces

theorem exists_sets (d : Drawing) :
    ∃ values, d.Sets values ∧ (∀ key, TabFree (values key)) ∧ values spinnerKey = [] := by
  refine ⟨fun key => if key = prefixKey then expandTabs (d.prefixText.getD [])
    else if key = msgKey then expandTabs (d.message.getD []) else [], ⟨?_, ?_⟩, ?_, rfl⟩
  · rintro text set
    rw [if_pos rfl, set, Option.getD_some]
  · rintro text set
    rw [if_neg (by decide), if_pos rfl, set, Option.getD_some]
  · intro key
    dsimp only
    split_ifs
    · exact tabFree_expandTabs _
    · exact tabFree_expandTabs _
    · exact tabFree_nil

theorem tabFree_of_showsVerbatim {e : Event} (shows : r.ShowsVerbatim g c e) :
    ∀ text ∈ r.shownTexts c e, TabFree text := by
  obtain ⟨values, sets, free, still⟩ := exists_sets (r.draw c e)
  have line := shows.tabFree sets free
  rw [still] at line
  exact (r.tabFree_line c e).mp line

theorem barTemplate_accepted : (g.parse r.barTemplate).isSome = true := by
  obtain ⟨pieces, parsed, -⟩ := g.reads_splice (fun _ => True) [] barPieces (by decide) (by decide)
    r.braceFree_bakedIndent
  have template : spell [] ++ r.bakedIndent ++ spell barPieces = r.barTemplate := rfl
  rw [← template, parsed]
  rfl

theorem showsVerbatim_of_bar {e : Event} {prefixText message : List Char}
    (drawn : r.draw c e = ⟨r.barTemplate, some prefixText, some message⟩)
    (shown : ∀ frame, r.line c frame e = spaces r.indentSpaces ++ prefixText ++ ' ' :: message)
    (head : TabFree prefixText) (body : TabFree message) : r.ShowsVerbatim g c e := by
  have reads := g.reads_splice (r.draw c e).Sets [] barPieces (by decide) (by decide)
    r.braceFree_bakedIndent
  have template : spell [] ++ r.bakedIndent ++ spell barPieces = (r.draw c e).template := by
    rw [drawn]
    rfl
  rw [template] at reads
  refine (Grammar.Reads.congr fun values sets => ?_).mp reads
  have set_prefix : values prefixKey = prefixText := by
    rw [sets.prefixText prefixText (by rw [drawn]), expandTabs_of_tabFree head]
  have set_message : values msgKey = message := by
    rw [sets.message message (by rw [drawn]), expandTabs_of_tabFree body]
  have indent : expandTabs r.bakedIndent = spaces r.indentSpaces :=
    expandTabs_of_tabFree (tabFree_spaces _)
  have blank : expandTabs [' '] = [' '] := rfl
  simp [shown, expand, barPieces, Piece.expand, indent, blank, set_prefix, set_message]

theorem showsVerbatim_of_inert {e : Event} (inert : r.Inert c e) : r.ShowsVerbatim g c e := by
  obtain ⟨braceless, tabless⟩ := inert
  cases e with
  | title =>
    simp only [shownTexts, List.forall_mem_cons] at tabless
    exact r.showsVerbatim_of_bar g c rfl (fun _ => rfl) (by simpa using tabless.1) tabless.2.1
  | wait msg =>
    simp only [shownTexts, List.forall_mem_cons] at tabless
    refine r.showsVerbatim_of_bar g c rfl (fun _ => ?_) (by simpa using tabless.1) ?_
    · cases msg <;> simp [line, waitMessage, parenthesised]
    · cases msg <;> simpa [waitMessage] using tabless.2
  | skip msg =>
    simp only [shownTexts, List.forall_mem_cons] at tabless
    refine r.showsVerbatim_of_bar g c rfl (fun _ => ?_) (by simpa using tabless.1) ?_
    · simp [line, parenthesised]
    · simpa using tabless.2
  | success msg elapsed =>
    simp only [shownTexts, List.forall_mem_cons] at tabless
    refine r.showsVerbatim_of_bar g c rfl (fun _ => ?_) (by simpa using tabless.1) ?_
    · simp [line, parenthesised, formattedDuration]
    · simpa [formattedDuration, c.duration_free] using tabless.2
  | fail elapsed =>
    simp only [shownTexts, List.forall_mem_cons] at tabless
    refine r.showsVerbatim_of_bar g c rfl (fun _ => ?_) (by simpa using tabless.1) ?_
    · simp [line, formattedDuration]
    · simpa [formattedDuration, c.duration_free] using tabless.2
  | errorReport error =>
    have accepted := g.accepts [.placeholder msgKey] rfl (by decide)
    refine ⟨[.placeholder msgKey], accepted, fun values sets => ?_⟩
    have body := sets.message (c.print error r.indentSpaces) rfl
    rw [expandTabs_of_tabFree (tabless _ (by simp [shownTexts]))] at body
    simp [line, expand, Piece.expand, body]
  | run msg =>
    have reads := g.reads_splice (r.draw c (.run msg)).Sets [] runPieces (by decide) (by decide)
      ((r.braceFree_runPrefixPart c).mpr braceless)
    refine (Grammar.Reads.congr fun values sets => ?_).mp reads
    have whole := (r.tabFree_line c (.run msg)).mpr tabless
    rw [r.line_run c [] msg] at whole
    simp only [tabFree_append, tabFree_cons] at whole
    have body := sets.message (r.runMessage c msg) rfl
    rw [expandTabs_of_tabFree whole.2.2.2] at body
    have blank : expandTabs [' '] = [' '] := rfl
    simp [r.line_run, expand, runPieces, Piece.expand, blank, body,
      expandTabs_of_tabFree whole.1.1]
  | separator =>
    have divider : BraceFree r.dividerRaw :=
      (r.free_dividerRaw c (fun _ _ => braceFree_append) braceFree_spaces).mpr braceless
    have whole : TabFree (c.paint .dim r.dividerRaw) :=
      r.line_separator c [] ▸ (r.tabFree_line c .separator).mpr tabless
    have template : BraceFree (c.paint .dim r.dividerRaw) := Console.braceFree_paint.mpr divider
    have reads := g.reads_splice (r.draw c .separator).Sets [] [] (by decide) (by decide) template
    rw [expandTabs_of_tabFree whole] at reads
    simpa [ShowsVerbatim, draw, line_separator, spell, expand] using reads

theorem rich_separator : Rich (r.draw c .separator).Sets :=
  Rich.of_update fun _ => ⟨fun _ => [], ['{'], rfl, ⟨nofun, nofun⟩, ⟨nofun, nofun⟩⟩

theorem inert_of_showsVerbatim (paired : g.Paired) {e : Event} (still : ∀ msg, e ≠ .run msg)
    (shows : r.ShowsVerbatim g c e) : r.Inert c e := by
  refine ⟨?_, r.tabFree_of_showsVerbatim g c shows⟩
  cases e with
  | run msg => exact absurd rfl (still msg)
  | separator =>
    have template : g.Reads (spell [] ++ c.paint .dim r.dividerRaw ++ spell [])
        (r.draw c .separator).Sets
        (fun values => expand values [] ++ c.paint .dim r.dividerRaw ++ expand values []) := by
      simpa [ShowsVerbatim, draw, line_separator, spell, expand] using shows
    have free := template.braceFree paired (r.rich_separator c)
    rw [Console.braceFree_paint, r.free_dividerRaw c (fun _ _ => braceFree_append) braceFree_spaces]
      at free
    exact free
  | title | wait | skip | success | fail | errorReport => exact List.forall_mem_nil _

theorem braces_runMessage (msg : String) :
    braces (r.runMessage c (some msg)) = braces r.name.toList + braces msg.toList := by
  have before : braces (c.before .dim) = 0 := (c.before_free .dim).1
  have after : braces (c.after .dim) = 0 := (c.after_free .dim).1
  have shown : r.runMessage c (some msg) =
      r.name.toList ++ [' '] ++
        (c.before .dim ++ ['('] ++ msg.toList ++ [')'] ++ c.after .dim) := by
    simp [runMessage, Console.paint]
  have plain : braces [' '] = 0 ∧ braces ['('] = 0 ∧ braces [')'] = 0 := by decide
  rw [shown]
  simp only [braces_append, before, after, plain]
  omega

abbrev Tabless : Type := { msg : Option String // ∀ text ∈ msg, TabFree text.toList }

theorem rich_run : Rich fun values => ∃ msg : Tabless, (r.draw c (.run msg.1)).Sets values := by
  let less : Tabless := ⟨some "", by simp⟩
  let more : Tabless := ⟨some "\x7b", by simp⟩
  have sets (msg : Tabless) {values : Key → List Char}
      (set : values msgKey = expandTabs (r.runMessage c msg.1)) :
      (r.draw c (.run msg.1)).Sets values :=
    ⟨nofun, fun text same => set.trans (congrArg expandTabs (Option.some.inj same))⟩
  refine Rich.of_update fun key => ?_
  by_cases same : key = msgKey
  · subst same
    refine ⟨fun _ => expandTabs (r.runMessage c less.1), expandTabs (r.runMessage c more.1), ?_,
      ⟨less, sets less rfl⟩, ⟨more, sets more (Function.update_self ..)⟩⟩
    rw [braces_expandTabs, braces_expandTabs, braces_runMessage, braces_runMessage]
    rfl
  · refine ⟨Function.update (fun _ => []) msgKey (expandTabs (r.runMessage c less.1)), ['{'], ?_,
      ⟨less, sets less (Function.update_self ..)⟩, ⟨less, sets less ?_⟩⟩
    · rw [Function.update_of_ne same]
      rfl
    · rw [Function.update_of_ne (Ne.symm same), Function.update_self]

theorem inert_of_shows_runs (paired : g.Paired)
    (shows : ∀ msg : Tabless, r.ShowsVerbatim g c (.run msg.1)) : r.Inert c (.run none) := by
  have tabless := r.tabFree_of_showsVerbatim g c (shows ⟨none, nofun⟩)
  refine ⟨?_, tabless⟩
  have whole (msg : Tabless) := (r.tabFree_line c (.run msg.1)).mpr
    (r.tabFree_of_showsVerbatim g c (shows msg))
  have reads (msg : Tabless) : g.Reads (spell [] ++ r.runPrefixPart c ++ spell runPieces)
      (r.draw c (.run msg.1)).Sets
      (fun values => expand values [] ++ r.runPrefixPart c ++ expand values runPieces) := by
    refine (Grammar.Reads.congr fun values sets => ?_).mp (shows msg)
    have free := whole msg
    rw [line_run] at free
    simp only [tabFree_append, tabFree_cons] at free
    have body := sets.message (r.runMessage c msg.1) rfl
    rw [expandTabs_of_tabFree free.2.2.2] at body
    have blank : expandTabs [' '] = [' '] := rfl
    simp [r.line_run, expand, runPieces, Piece.expand, blank, body]
  have nonempty : Nonempty Tabless := ⟨none, nofun⟩
  exact (r.braceFree_runPrefixPart c).mp
    ((Grammar.forall_reads.mp reads).braceFree paired (r.rich_run c))

/-- Texts without tabs are shown as they are, but for headers and dividers and the arrow
of a stage with a brace: these are read as template syntax.  No text with a tab is shown
as it is, and where a grammar takes two braces for each that it reads none of these with
a brace. -/
theorem shows_verbatim_iff :
    (∀ e, r.Inert c e → r.ShowsVerbatim g c e) ∧
    (∀ e, r.ShowsVerbatim g c e → ∀ text ∈ r.shownTexts c e, TabFree text) ∧
    (g.Paired →
      (∀ e, (∀ msg, e ≠ .run msg) → (r.ShowsVerbatim g c e ↔ r.Inert c e)) ∧
      ((∀ msg, (∀ text ∈ msg, TabFree text.toList) → r.ShowsVerbatim g c (.run msg)) ↔
        r.Inert c (.run none))) := by
  refine ⟨fun e => r.showsVerbatim_of_inert g c, fun e => r.tabFree_of_showsVerbatim g c,
    fun paired => ⟨fun e still => ⟨r.inert_of_showsVerbatim g c paired still,
      r.showsVerbatim_of_inert g c⟩, fun shows => r.inert_of_shows_runs g c paired
        fun msg => shows msg.1 msg.2, fun inert msg tabless => ?_⟩⟩
  refine r.showsVerbatim_of_inert g c ⟨inert.1, ?_⟩
  have given := inert.2
  cases msg with
  | none => exact given
  | some msg =>
    simp only [shownTexts, List.forall_mem_append, List.forall_mem_cons] at given ⊢
    exact ⟨given.1, given.2.1, by simpa using tabless msg rfl⟩

end TaskRenderer

theorem TaskBuilder.addStep_group_iff (g : StyleGrammar) (paired : g.Paired) (c : Console)
    (b : TaskBuilder) {s s' : Building} {header : Option String}
    (added : b.addStep s (.group header) = some s') :
    ∃ r, s'.screen.log = s.screen.log ++ [⟨r, .separator⟩] ∧
      r.name = header.getD "" ∧ r.style = b.style ∧
      (r.ShowsVerbatim g c .separator ↔ r.Inert c .separator) := by
  obtain ⟨⟨r, point, w⟩, created, rest⟩ := Option.bind_eq_some_iff.mp added
  obtain rfl := Option.some.inj rest
  have spec : r.name = header.getD "" ∧ r.style = b.style ∧ w.log = s.screen.log := by
    unfold createChildRenderer at created
    split at created
    · cases created
      exact ⟨rfl, rfl, rfl⟩
    · cases created
      exact ⟨rfl, rfl, rfl⟩
    · cases created
  obtain ⟨name, style, log⟩ := spec
  have separated : (r.separator w).log = w.log ++ [⟨r, .separator⟩] := by
    unfold TaskRenderer.separator TaskRenderer.onBar
    split <;> rfl
  refine ⟨r, ?_, name, style, r.inert_of_showsVerbatim g c paired (fun _ => nofun),
    r.showsVerbatim_of_inert g c⟩
  rw [separated, log]

def Console.colourless : Console where
  before _ := []
  after _ := []
  before_free _ := ⟨rfl, tabFree_nil⟩
  after_free _ := ⟨rfl, tabFree_nil⟩
  duration _ := "[0.00s]".toList
  duration_free _ := by decide
  print error _ := error.message.toList

theorem shows_verbatim_iff_checks :
    TaskRenderer.ShowsVerbatim (.strict _) .colourless
      ⟨1, "checks", .interactive ⟨1⟩ [], .modern, 3⟩ .separator ∧
    ¬TaskRenderer.ShowsVerbatim (.strict _) .colourless
      ⟨1, "a\tb", .interactive ⟨1⟩ [], .modern, 3⟩ .title := by
  refine ⟨(((TaskRenderer.shows_verbatim_iff (.strict _) .colourless _).2.2
    (Grammar.strict_paired _)).1 .separator (fun _ => nofun)).mpr (by decide), fun shows => ?_⟩
  have tabless := (TaskRenderer.shows_verbatim_iff (.strict _) .colourless _).2.1 _ shows
  exact absurd (tabless "a\tb".toList (by decide)) (by decide)

/-- A header of two braces is no placeholder, so the template of its separator is
malformed. -/
theorem separator_reads_header :
    ∃ task w r,
      ((TaskBuilder.new "deploy" .modern .interactive).withGroup (some "\x7b\x7d")).start false
        (Screen.new id) = some (task, w) ∧
      (⟨r, .separator⟩ : Record) ∈ w.log ∧
      (Grammar.strict [prefixKey, msgKey, spinnerKey]).parse
        (r.draw .colourless .separator).template = none ∧
      ¬r.ShowsVerbatim (.strict _) .colourless .separator := by
  refine ⟨_, _, ⟨1, "\x7b\x7d", .interactive ⟨1⟩ [], .modern, 3⟩, rfl, by decide, by decide, ?_⟩
  rintro ⟨pieces, parsed, -⟩
  have malformed : (Grammar.strict [prefixKey, msgKey, spinnerKey]).parse
      (TaskRenderer.draw .colourless ⟨1, "\x7b\x7d", .interactive ⟨1⟩ [], .modern, 3⟩
        .separator).template = none := by decide
  rw [malformed] at parsed
  cases parsed

end KnotOps.Terminal
