import KnotOps.Text
import KnotOps.Terminal.Drawing

/-! `ErrorReport::print` and the reading of what it prints.
A report is a frame of lines: each section begins with an empty line of the frame, and its
text is broken by `textwrap` into lines, the first of which is labelled.  What is at the
end of the whole is trimmed.  A line that comes out shorter than the frame and a label has
lost blanks only, so that a report can be read back from its lines. -/

namespace KnotOps.Terminal

open Text

/-- `textwrap::wrap`: at least one line, and no breaks inside. -/
structure Wrapping where
  wrap : List Char → Nat → List (List Char)
  nonempty : ∀ text width, wrap text width ≠ []
  unbroken : ∀ text width, ∀ line ∈ wrap text width, '\n' ∉ line

namespace Wrapping

def firstFit (width : Nat) (line : List Char) : List (List Char) → List (List Char)
  | [] => [line]
  | word :: words =>
    if line.length + word.length < width then firstFit width (line ++ ' ' :: word) words
    else line :: firstFit width word words

theorem firstFit_ne_nil (width : Nat) (line : List Char) (words : List (List Char)) :
    firstFit width line words ≠ [] := by
  induction words generalizing line with
  | nil => simp [firstFit]
  | cons word words ih =>
    rw [firstFit]
    split
    · exact ih _
    · simp

theorem firstFit_unbroken {width : Nat} {line : List Char} {words : List (List Char)}
    (first : '\n' ∉ line) (others : ∀ word ∈ words, '\n' ∉ word) :
    ∀ l ∈ firstFit width line words, '\n' ∉ l := by
  induction words generalizing line with
  | nil => simpa [firstFit] using first
  | cons word words ih =>
    rw [List.forall_mem_cons] at others
    rw [firstFit]
    split
    · exact ih (by simp [first, others.1]) others.2
    · exact List.forall_mem_cons.mpr ⟨first, ih others.1 others.2⟩

def wrapLine (width : Nat) (line : List Char) : List (List Char) :=
  if line.length < width then [line.rdropWhile (· == ' ')]
  else match line.splitOn ' ' with
    | [] => [[]]
    | word :: words => firstFit width word words

theorem wrapLine_ne_nil (width : Nat) (line : List Char) : wrapLine width line ≠ [] := by
  unfold wrapLine
  split
  · simp
  · split
    · simp
    · exact firstFit_ne_nil _ _ _

theorem wrapLine_unbroken {width : Nat} {line : List Char} (unbroken : '\n' ∉ line) :
    ∀ l ∈ wrapLine width line, '\n' ∉ l := by
  unfold wrapLine
  split
  · rw [List.forall_mem_singleton]
    exact fun inside => unbroken ((List.rdropWhile_prefix _ line).subset inside)
  · split
    · simp
    · next word words cut =>
      have pieces : ∀ piece ∈ word :: words, '\n' ∉ piece := fun piece among inside =>
        unbroken (mem_of_mem_splitOn (cut ▸ among) inside).1
      rw [List.forall_mem_cons] at pieces
      exact firstFit_unbroken pieces.1 pieces.2

/-- What `textwrap::wrap` does with words that are separated by single blanks and shorter
than a line, where filling each line in turn leaves the least room. -/
def words : Wrapping where
  wrap text width := (text.splitOn '\n').flatMap (wrapLine width)
  nonempty text width := by
    obtain ⟨first, rest, cut⟩ := List.exists_cons_of_ne_nil (List.splitOn_ne_nil '\n' text)
    simp [cut, wrapLine_ne_nil]
  unbroken text width line member := by
    obtain ⟨piece, among, inside⟩ := List.mem_flatMap.mp member
    exact wrapLine_unbroken (fun bad => (mem_of_mem_splitOn among bad).2 rfl) line inside

end Wrapping

inductive Section where
  | issue
  | context
  | solution
deriving DecidableEq, Repr

def Section.label : Section → List Char
  | issue => "issue:    ".toList
  | context => "context:  ".toList
  | solution => "solution: ".toList

structure ReportStyle where
  border : List Char → List Char
  label : Section → List Char → List Char
  line : Section → List Char → List Char

def ReportStyle.plain : ReportStyle := ⟨id, fun _ => id, fun _ => id⟩

namespace ErrorReport

def rawBorder (indentSpace : Nat) : List Char := spaces indentSpace ++ ['│', ' ']

def indentSpaces : List Char := spaces 10

/-- `saturating_sub`. -/
def contentWidth (termWidth indentSpace : Nat) : Nat :=
  min termWidth 100 - ((rawBorder indentSpace).length + indentSpaces.length)

/-- `ctx.replace("\\\\?\\", "")`. -/
def cleanContext : List Char → List Char
  | '\\' :: '\\' :: '?' :: '\\' :: rest => cleanContext rest
  | c :: rest => c :: cleanContext rest
  | [] => []

abbrev SectionText := Section × List (List Char)

def sections (w : Wrapping) (termWidth indentSpace : Nat) (report : ErrorReport) :
    List SectionText :=
  let wrapped (text : List Char) := w.wrap text (contentWidth termWidth indentSpace)
  (.issue, wrapped report.message.toList) ::
    ((report.context.map fun ctx => (.context, wrapped (cleanContext ctx.toList))).toList ++
      (report.solution.map fun sol => (.solution, wrapped sol.toList)).toList)

def sectionLines (style : ReportStyle) (border : List Char) : SectionText → List (List Char)
  | (_, []) => [border]
  | (s, first :: rest) =>
    border :: (border ++ style.label s s.label ++ style.line s first) ::
      rest.map fun line => border ++ indentSpaces ++ style.line s line

def print (w : Wrapping) (style : ReportStyle) (termWidth : Nat) (report : ErrorReport)
    (indentSpace : Nat) : List Char :=
  let border := style.border (rawBorder indentSpace)
  let out := unlines ((report.sections w termWidth indentSpace).flatMap (sectionLines style border))
  out.rdropWhile isWhitespace

end ErrorReport

inductive ReportLine where
  | border
  | head (s : Section) (text : List Char)
  | more (text : List Char)
deriving DecidableEq, Repr

namespace ReportLine

open ErrorReport

def toText (indentSpace : Nat) : ReportLine → List Char
  | border => rawBorder indentSpace
  | head s text => rawBorder indentSpace ++ (s.label ++ text)
  | more text => rawBorder indentSpace ++ (indentSpaces ++ text)

def ofLabel (label text : List Char) : Option ReportLine :=
  if label = indentSpaces then some (.more text)
  else if label = Section.issue.label then some (.head .issue text)
  else if label = Section.context.label then some (.head .context text)
  else if label = Section.solution.label then some (.head .solution text)
  else none

/-- A line, to which the blanks are given back that it may have lost. -/
def read (indentSpace : Nat) (line : List Char) : Option ReportLine :=
  if line = rawBorder indentSpace then some .border
  else
    let padded := line ++ spaces (indentSpace + 12 - line.length)
    if rawBorder indentSpace <+: padded then
      let rest := padded.drop (indentSpace + 2)
      ofLabel (rest.take 10) (rest.drop 10)
    else none

def trimmed : ReportLine → ReportLine
  | border => border
  | head s text => head s (text.rdropWhile isWhitespace)
  | more text => more (text.rdropWhile isWhitespace)

variable {indentSpace : Nat} {mark text : List Char}

theorem length_rawBorder (indentSpace : Nat) :
    (rawBorder indentSpace).length = indentSpace + 2 := by
  simp [rawBorder, spaces]

theorem read_padded {line : List Char} (other : line ≠ rawBorder indentSpace)
    (ten : mark.length = 10)
    (padded : line ++ spaces (indentSpace + 12 - line.length) =
      rawBorder indentSpace ++ (mark ++ text)) :
    read indentSpace line = ofLabel mark text := by
  have inside : rawBorder indentSpace <+: rawBorder indentSpace ++ (mark ++ text) :=
    List.prefix_append _ _
  rw [read, if_neg other, padded]
  simp only [inside, if_true]
  rw [List.drop_left' (length_rawBorder indentSpace), List.take_left' ten, List.drop_left' ten]

theorem read_framed (ten : mark.length = 10) :
    read indentSpace (rawBorder indentSpace ++ (mark ++ text)) = ofLabel mark text := by
  have long : (rawBorder indentSpace ++ (mark ++ text)).length =
      indentSpace + 12 + text.length := by
    rw [List.length_append, List.length_append, length_rawBorder, ten]
    omega
  apply read_padded _ ten
  · have none_lost : indentSpace + 12 - (rawBorder indentSpace ++ (mark ++ text)).length = 0 := by
      omega
    rw [none_lost]
    exact List.append_nil _
  · intro same
    rw [same, length_rawBorder] at long
    omega

theorem rdropWhile_rawBorder (indentSpace : Nat) :
    (rawBorder indentSpace).rdropWhile isWhitespace = spaces indentSpace ++ ['│'] := by
  have bar : (['│', ' '] : List Char).rdropWhile isWhitespace = ['│'] := by decide
  rw [rawBorder, rdropWhile_append_of_ne_nil _ (by simp [bar]), bar]

theorem blank_of_mem_rawBorder {c : Char} (member : c ∈ rawBorder indentSpace)
    (blank : isWhitespace c = true) : c = ' ' := by
  simp only [rawBorder, spaces, List.mem_append, List.mem_replicate, List.mem_cons,
    List.not_mem_nil, or_false] at member
  rcases member with ⟨-, rfl⟩ | rfl | rfl
  · rfl
  · cases blank
  · rfl

theorem read_trimmed_framed (ten : mark.length = 10)
    (only : ∀ c ∈ mark, isWhitespace c = true → c = ' ') :
    read indentSpace ((rawBorder indentSpace ++ (mark ++ text)).rdropWhile isWhitespace) =
      ofLabel mark (text.rdropWhile isWhitespace) := by
  by_cases blank : text.rdropWhile isWhitespace = []
  · rw [← List.append_assoc, rdropWhile_append_of_eq_nil _ blank, blank]
    have only_blanks : ∀ c ∈ rawBorder indentSpace ++ mark, isWhitespace c = true → c = ' ' := by
      intro c member white
      rcases List.mem_append.mp member with frame | label
      · exact blank_of_mem_rawBorder frame white
      · exact only c label white
    have restored := restore_rdropWhile only_blanks
    rw [List.length_append, length_rawBorder, ten] at restored
    apply read_padded _ ten
    · rw [List.append_nil]
      exact restored
    · intro same
      have again := List.rdropWhile_idempotent isWhitespace (rawBorder indentSpace ++ mark)
      rw [same, rdropWhile_rawBorder] at again
      simpa [rawBorder] using congrArg List.length again
  · rw [← List.append_assoc, rdropWhile_append_of_ne_nil _ blank, List.append_assoc]
    exact read_framed ten

theorem label_length (s : Section) : s.label.length = 10 := by cases s <;> decide

theorem blank_of_all (all : (mark.all fun c => !isWhitespace c || c == ' ') = true) :
    ∀ c ∈ mark, isWhitespace c = true → c = ' ' := by
  intro c member white
  simpa [white] using List.all_eq_true.mp all c member

theorem label_blank (s : Section) : ∀ c ∈ s.label, isWhitespace c = true → c = ' ' := by
  cases s <;> exact blank_of_all (by decide)

theorem ofLabel_label (s : Section) (text : List Char) :
    ofLabel s.label text = some (.head s text) := by cases s <;> rfl

theorem read_toText (indentSpace : Nat) (line : ReportLine) :
    read indentSpace (line.toText indentSpace) = some line := by
  cases line with
  | border => exact if_pos rfl
  | head s text => rw [toText, read_framed (label_length s), ofLabel_label]
  | more text => exact read_framed rfl

theorem read_trimmed {line : ReportLine} (inside : line ≠ border) :
    read indentSpace ((line.toText indentSpace).rdropWhile isWhitespace) = some line.trimmed := by
  cases line with
  | border => exact absurd rfl inside
  | head s text =>
    rw [toText, read_trimmed_framed (label_length s) (label_blank s), ofLabel_label]
    rfl
  | more text => exact read_trimmed_framed rfl (blank_of_all (by decide))

theorem toText_solid (indentSpace : Nat) (line : ReportLine) :
    (line.toText indentSpace).rdropWhile isWhitespace ≠ [] := by
  intro blank
  have bar : '│' ∈ line.toText indentSpace := by cases line <;> simp [toText, rawBorder]
  have white := List.rdropWhile_eq_nil_iff.mp blank '│' bar
  cases white

def ofSection : SectionText → List ReportLine
  | (_, []) => [border]
  | (s, first :: rest) => border :: head s first :: rest.map more

theorem sectionLines_plain (indentSpace : Nat) (part : SectionText) :
    sectionLines .plain (rawBorder indentSpace) part =
      (ofSection part).map (toText indentSpace) := by
  obtain ⟨s, lines⟩ := part
  cases lines with
  | nil => rfl
  | cons first rest =>
    simp [sectionLines, ofSection, toText, ReportStyle.plain]

/-- The sections of some lines, after the rest of a section that has begun before them. -/
def gather : List ReportLine → Option (List (List Char) × List SectionText)
  | [] => some ([], [])
  | border :: head s text :: lines =>
    (gather lines).map fun (rest, parts) => ([], (s, text :: rest) :: parts)
  | more text :: lines => (gather lines).map fun (rest, parts) => (text :: rest, parts)
  | border :: _ | head _ _ :: _ => none

theorem gather_more (texts : List (List Char)) (lines : List ReportLine) :
    gather (texts.map more ++ lines) =
      (gather lines).map fun (rest, parts) => (texts ++ rest, parts) := by
  induction texts with
  | nil => simp
  | cons text texts ih =>
    rw [List.map_cons, List.cons_append, gather, ih, Option.map_map]
    rfl

theorem gather_ofSection {parts : List SectionText} (written : ∀ part ∈ parts, part.2 ≠ []) :
    gather (parts.flatMap ofSection) = some ([], parts) := by
  induction parts with
  | nil => rfl
  | cons part parts ih =>
    obtain ⟨nonempty, others⟩ := List.forall_mem_cons.mp written
    obtain ⟨s, texts⟩ := part
    obtain ⟨first, rest, rfl⟩ := List.exists_cons_of_ne_nil nonempty
    rw [List.flatMap_cons, ofSection, List.cons_append, List.cons_append, gather, gather_more,
      ih others]
    simp

end ReportLine

namespace ErrorReport

open ReportLine

def trimLines (lines : List (List Char)) : List (List Char) :=
  lines.modifyLast (·.rdropWhile isWhitespace)

/-- The last line of the last section, trimmed. -/
def trimEnd (parts : List SectionText) : List SectionText :=
  parts.modifyLast fun part => (part.1, trimLines part.2)

def readReport (indentSpace : Nat) (text : List Char) : Option (List SectionText) := do
  let lines ← (text.splitOn '\n').mapM (ReportLine.read indentSpace)
  match ← gather lines with
  | ([], parts) => some parts
  | (_ :: _, _) => none

theorem ofSection_trimLines (s : Section) {texts : List (List Char)} (nonempty : texts ≠ []) :
    ofSection (s, trimLines texts) = (ofSection (s, texts)).modifyLast trimmed := by
  obtain ⟨first, rest, rfl⟩ := List.exists_cons_of_ne_nil nonempty
  have split : ofSection (s, first :: rest) = [border] ++ (head s first :: rest.map more) := rfl
  rw [split, List.modifyLast_append_of_right_ne_nil _ _ _ (by simp)]
  by_cases single : rest = []
  · rw [single]
    rfl
  · have later : trimLines (first :: rest) = first :: trimLines rest :=
      List.modifyLast_append_of_right_ne_nil _ [first] rest single
    have label : head s first :: rest.map more = [head s first] ++ rest.map more := rfl
    have commutes : (trimLines rest).map more = (rest.map more).modifyLast trimmed := by
      refine modifyLast_map ?_ rest
      exact fun _ => rfl
    rw [later, label, List.modifyLast_append_of_right_ne_nil _ _ _ (by simpa using single),
      ← commutes]
    rfl

theorem flatMap_trimEnd {front : List SectionText} {part : SectionText} (written : part.2 ≠ []) :
    (trimEnd (front ++ [part])).flatMap ofSection =
      ((front ++ [part]).flatMap ofSection).modifyLast trimmed := by
  obtain ⟨s, texts⟩ := part
  have some_line : ofSection (s, texts) ≠ [] := by cases texts <;> simp [ofSection]
  rw [trimEnd, List.modifyLast_concat, List.flatMap_append, List.flatMap_append,
    List.flatMap_singleton, List.flatMap_singleton, ofSection_trimLines s written,
    List.modifyLast_append_of_right_ne_nil _ _ _ some_line]

theorem trimEnd_written {parts : List SectionText} (written : ∀ part ∈ parts, part.2 ≠ []) :
    ∀ part ∈ trimEnd parts, part.2 ≠ [] := by
  have keeps (lines : List (List Char)) (nonempty : lines ≠ []) : trimLines lines ≠ [] := by
    obtain ⟨init, line, split⟩ := (List.eq_nil_or_concat lines).resolve_left nonempty
    rw [split, List.concat_eq_append, trimLines, List.modifyLast_concat]
    simp
  induction parts using List.reverseRecOn with
  | nil => exact written
  | append_singleton front last _ =>
    rw [trimEnd, List.modifyLast_concat]
    simp only [List.forall_mem_append, List.forall_mem_singleton] at written ⊢
    exact ⟨written.1, keeps _ written.2⟩

theorem ofSection_last {part : SectionText} (written : part.2 ≠ []) :
    ∃ front last, ofSection part = front ++ [last] ∧ last ≠ border := by
  obtain ⟨s, texts⟩ := part
  obtain ⟨first, rest, rfl⟩ := List.exists_cons_of_ne_nil written
  rcases List.eq_nil_or_concat rest with rfl | ⟨init, text, rfl⟩
  · exact ⟨[border], head s first, rfl, nofun⟩
  · exact ⟨border :: head s first :: init.map more, more text, by simp [ofSection], nofun⟩

variable (w : Wrapping) (termWidth indentSpace : Nat) (report : ErrorReport)

theorem sections_written : ∀ part ∈ report.sections w termWidth indentSpace, part.2 ≠ [] := by
  intro part member
  simp only [sections, List.mem_cons, List.mem_append, Option.mem_toList,
    Option.map_eq_some_iff] at member
  rcases member with rfl | ⟨ctx, -, rfl⟩ | ⟨sol, -, rfl⟩ <;> exact w.nonempty _ _

theorem sections_unbroken :
    ∀ part ∈ report.sections w termWidth indentSpace, ∀ line ∈ part.2, '\n' ∉ line := by
  intro part member
  simp only [sections, List.mem_cons, List.mem_append, Option.mem_toList,
    Option.map_eq_some_iff] at member
  rcases member with rfl | ⟨ctx, -, rfl⟩ | ⟨sol, -, rfl⟩ <;> exact w.unbroken _ _

theorem toText_unbroken {part : SectionText} (unbroken : ∀ line ∈ part.2, '\n' ∉ line)
    {line : ReportLine} (member : line ∈ ofSection part) : '\n' ∉ line.toText indentSpace := by
  have frame : '\n' ∉ rawBorder indentSpace := by simp [rawBorder, spaces]
  have label (s : Section) : '\n' ∉ s.label := by cases s <;> decide
  have indent : '\n' ∉ indentSpaces := by decide
  obtain ⟨s, texts⟩ := part
  cases texts with
  | nil =>
    obtain rfl := List.mem_singleton.mp member
    exact frame
  | cons first rest =>
    simp only [ofSection, List.mem_cons, List.mem_map] at member
    rcases member with rfl | rfl | ⟨text, later, rfl⟩
    · exact frame
    · simp [toText, frame, label, unbroken first List.mem_cons_self]
    · simp [toText, frame, indent, unbroken text (List.mem_cons_of_mem _ later)]

theorem sectionLines_flatMap_plain (indentSpace : Nat) (parts : List SectionText) :
    parts.flatMap (sectionLines .plain (rawBorder indentSpace)) =
      (parts.flatMap ofSection).map (toText indentSpace) := by
  rw [List.map_flatMap]
  exact List.flatMap_congr fun part _ => sectionLines_plain indentSpace part

theorem mapM_read_trimEnd {front : List ReportLine} {last : ReportLine}
    (unbroken : ∀ line ∈ front ++ [last], '\n' ∉ line.toText indentSpace)
    (inside : last ≠ border) :
    (((unlines ((front ++ [last]).map (toText indentSpace))).rdropWhile isWhitespace).splitOn
      '\n').mapM (ReportLine.read indentSpace) = some (front ++ [last.trimmed]) := by
  have lines : ∀ line ∈ front.map (toText indentSpace) ++ [last.toText indentSpace],
      '\n' ∉ line := by
    intro line member
    rw [← List.map_singleton, ← List.map_append] at member
    obtain ⟨shown, among, rfl⟩ := List.mem_map.mp member
    exact unbroken shown among
  rw [List.map_append, List.map_singleton,
    splitOn_trimEnd_unlines lines (by decide) (toText_solid indentSpace last)]
  have complete : (front.map (toText indentSpace)).mapM (ReportLine.read indentSpace) =
      some front := by
    have each : ReportLine.read indentSpace ∘ toText indentSpace = some :=
      funext (read_toText indentSpace)
    rw [List.mapM_map, each]
    simpa using @List.mapM_pure Option _ _ _ _ front id
  simp [List.mapM_append, complete, read_trimmed inside]

/-- What a report prints without colours shows the sections that it has, with their texts
broken into lines, but for blanks at its end. -/
theorem read_print :
    readReport indentSpace (report.print w .plain termWidth indentSpace) =
      some (trimEnd (report.sections w termWidth indentSpace)) := by
  have written := sections_written w termWidth indentSpace report
  have unbroken := sections_unbroken w termWidth indentSpace report
  have some_section : report.sections w termWidth indentSpace ≠ [] := List.cons_ne_nil _ _
  rw [print]
  generalize report.sections w termWidth indentSpace = parts at *
  obtain ⟨front, part, split⟩ := (List.eq_nil_or_concat parts).resolve_left some_section
  rw [List.concat_eq_append] at split
  subst split
  have last_written : part.2 ≠ [] := written part (by simp)
  obtain ⟨inner, last, shape, inside⟩ := ofSection_last last_written
  have lines : (front ++ [part]).flatMap ofSection =
      (front.flatMap ofSection ++ inner) ++ [last] := by
    rw [List.flatMap_append, List.flatMap_singleton, shape, List.append_assoc]
  have shown : ∀ line ∈ (front.flatMap ofSection ++ inner) ++ [last],
      '\n' ∉ line.toText indentSpace := by
    intro line member
    rw [← lines] at member
    obtain ⟨among, belongs, at_it⟩ := List.mem_flatMap.mp member
    exact toText_unbroken indentSpace (unbroken among belongs) at_it
  have trimmed_lines : (front.flatMap ofSection ++ inner) ++ [last.trimmed] =
      (trimEnd (front ++ [part])).flatMap ofSection := by
    rw [flatMap_trimEnd last_written, lines, List.modifyLast_concat]
  have read_lines := mapM_read_trimEnd indentSpace shown inside
  rw [← lines, ← sectionLines_flatMap_plain, trimmed_lines] at read_lines
  have gathered := gather_ofSection (trimEnd_written written)
  have bordered : ReportStyle.plain.border (rawBorder indentSpace) = rawBorder indentSpace := rfl
  rw [readReport, bordered, read_lines]
  simp [gathered]

def slowStart : ErrorReport :=
  ⟨"the daemon did not come up within five seconds", some "\\\\?\\C:\\knot\\run",
    some "look at the log\nand start it again\n"⟩

theorem read_print_slowStart :
    readReport 2 (slowStart.print .words .plain 42 2) =
      some [(.issue, ["the daemon did not come up".toList, "within five seconds".toList]),
        (.context, ["C:\\knot\\run".toList]),
        (.solution, ["look at the log".toList, "and start it again".toList, []])] := by
  have broken : slowStart.sections .words 42 2 =
      [(.issue, ["the daemon did not come up".toList, "within five seconds".toList]),
        (.context, ["C:\\knot\\run".toList]),
        (.solution, ["look at the log".toList, "and start it again".toList, []])] := by decide
  rw [read_print .words 42 2 slowStart, broken]
  rfl

end ErrorReport

end KnotOps.Terminal
