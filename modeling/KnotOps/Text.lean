import Mathlib.Data.List.Basic
import Mathlib.Data.List.DropRight
import Mathlib.Data.List.ModifyLast

/-! Texts that are stripped of codes, broken into lines and trimmed at their end.
A code is erased together with the element that begins it, so a text without such
elements stays in front of whatever follows; nothing more is known of the codes. -/

namespace KnotOps.Text

universe u v

/-- An erasure of codes. -/
structure Eraser (α : Type u) (begins : α → Prop) where
  erase : List α → List α
  sublist : ∀ text, (erase text).Sublist text
  erase_append : ∀ text rest, (∀ c ∈ text, ¬begins c) → erase (text ++ rest) = text ++ erase rest

namespace Eraser

variable {α : Type u} {begins : α → Prop} (e : Eraser α begins) {text rest : List α} {c : α}

/-- No code begins in the text, whatever follows it. -/
def Leaves (text : List α) : Prop := ∀ rest, e.erase (text ++ rest) = text ++ e.erase rest

variable {e}

theorem leaves_of_free (free : ∀ c ∈ text, ¬begins c) : e.Leaves text :=
  fun rest => e.erase_append text rest free

theorem Leaves.nil : e.Leaves [] := leaves_of_free (by simp)

theorem Leaves.append (first : e.Leaves text) (second : e.Leaves rest) :
    e.Leaves (text ++ rest) := fun more => by
  rw [List.append_assoc, first, second, List.append_assoc]

theorem Leaves.cons (free : ¬begins c) (h : e.Leaves text) : e.Leaves (c :: text) :=
  (leaves_of_free (List.forall_mem_singleton.mpr free)).append h

theorem Leaves.flatten {texts : List (List α)} (h : ∀ text ∈ texts, e.Leaves text) :
    e.Leaves texts.flatten := by
  induction texts with
  | nil => exact .nil
  | cons text texts ih =>
    obtain ⟨first, rest⟩ := List.forall_mem_cons.mp h
    exact first.append (ih rest)

theorem Leaves.isPrefix (h : e.Leaves text) (rest : List α) : text <+: e.erase (text ++ rest) :=
  ⟨e.erase rest, (h rest).symm⟩

theorem notMem_erase (absent : c ∉ text) : c ∉ e.erase text :=
  fun member => absent ((e.sublist text).subset member)

theorem Leaves.mem_erase_iff (h : e.Leaves text) (absent : c ∉ rest) :
    c ∈ e.erase (text ++ rest) ↔ c ∈ text ++ rest := by
  rw [h rest, List.mem_append, List.mem_append, or_iff_left (notMem_erase absent),
    or_iff_left absent]

variable (α begins) in
def nothing : Eraser α begins := ⟨id, fun _ => .refl _, fun _ _ _ => rfl⟩

end Eraser

/-- `char::is_whitespace`, the Unicode property White_Space. -/
def isWhitespace (c : Char) : Bool :=
  c.toNat = 0x20 || (0x09 ≤ c.toNat && c.toNat ≤ 0x0d) || c.toNat = 0x85 || c.toNat = 0xa0 ||
    c.toNat = 0x1680 || (0x2000 ≤ c.toNat && c.toNat ≤ 0x200a) || c.toNat = 0x2028 ||
    c.toNat = 0x2029 || c.toNat = 0x202f || c.toNat = 0x205f || c.toNat = 0x3000

def dropReturn (line : List Char) : List Char :=
  if line.getLast? = some '\r' then line.dropLast else line

def linesFrom (line : List Char) : List Char → List (List Char)
  | [] => if line = [] then [] else [line]
  | c :: rest =>
    if c = '\n' then dropReturn line :: linesFrom [] rest else linesFrom (line ++ [c]) rest

/-- `str::lines`. -/
def lines (text : List Char) : List (List Char) := linesFrom [] text

theorem notMem_dropReturn {line : List Char} {c : Char} (absent : c ∉ line) :
    c ∉ dropReturn line := by
  unfold dropReturn
  split
  · exact fun member => absent (List.dropLast_subset line member)
  · exact absent

theorem unbroken_of_mem_linesFrom {text line l : List Char} (unbroken : '\n' ∉ line)
    (member : l ∈ linesFrom line text) : '\n' ∉ l := by
  induction text generalizing line with
  | nil =>
    rw [linesFrom] at member
    split at member
    · cases member
    · exact List.mem_singleton.mp member ▸ unbroken
  | cons c text ih =>
    rw [linesFrom] at member
    split at member
    · rcases List.mem_cons.mp member with rfl | later
      · exact notMem_dropReturn unbroken
      · exact ih (List.not_mem_nil) later
    · rename_i other
      exact ih (by simp [unbroken, Ne.symm other]) member

theorem unbroken_of_mem_lines {text line : List Char} (member : line ∈ lines text) :
    '\n' ∉ line :=
  unbroken_of_mem_linesFrom List.not_mem_nil member

example : lines "a\r\n\nb\n".toList = ["a".toList, [], "b".toList] := by decide

theorem modifyLast_map {α : Type u} {β : Type v} {f : α → β} {g : α → α} {h : β → β}
    (commutes : ∀ a, f (g a) = h (f a)) (l : List α) :
    (l.modifyLast g).map f = (l.map f).modifyLast h := by
  induction l using List.reverseRecOn with
  | nil => rfl
  | append_singleton l a _ =>
    rw [List.modifyLast_concat, List.map_append, List.map_append, List.map_singleton,
      List.map_singleton, List.modifyLast_concat, commutes]

section TrimEnd

variable {p : Char → Bool} {front back : List Char}

theorem rdropWhile_append (p : Char → Bool) (front back : List Char) :
    (front ++ back).rdropWhile p =
      if back.rdropWhile p = [] then front.rdropWhile p else front ++ back.rdropWhile p := by
  simp only [List.rdropWhile, List.reverse_append, List.dropWhile_append, List.isEmpty_iff,
    List.reverse_eq_nil_iff]
  split_ifs with empty
  · rfl
  · rw [List.reverse_append, List.reverse_reverse]

theorem rdropWhile_append_of_ne_nil (front : List Char) (solid : back.rdropWhile p ≠ []) :
    (front ++ back).rdropWhile p = front ++ back.rdropWhile p := by
  rw [rdropWhile_append, if_neg solid]

theorem rdropWhile_append_of_eq_nil (front : List Char) (blank : back.rdropWhile p = []) :
    (front ++ back).rdropWhile p = front.rdropWhile p := by
  rw [rdropWhile_append, if_pos blank]

theorem restore_rdropWhile {blank : Char} {text : List Char}
    (only : ∀ c ∈ text, p c = true → c = blank) :
    text.rdropWhile p ++ List.replicate (text.length - (text.rdropWhile p).length) blank =
      text := by
  have split : text.rdropWhile p ++ text.rtakeWhile p = text := List.rdropWhile_append_rtakeWhile
  have blanks : text.rtakeWhile p =
      List.replicate (text.length - (text.rdropWhile p).length) blank := by
    rw [List.eq_replicate_iff]
    constructor
    · have lengths := congrArg List.length split
      rw [List.length_append] at lengths
      omega
    · intro c member
      exact only c ((List.rtakeWhile_suffix p text).subset member) (List.mem_rtakeWhile_imp member)
  rw [← blanks, split]

end TrimEnd

/-- What `writeln!` makes of lines. -/
def unlines (ls : List (List Char)) : List Char := ls.flatMap (· ++ ['\n'])

theorem unlines_append (first second : List (List Char)) :
    unlines (first ++ second) = unlines first ++ unlines second := List.flatMap_append

theorem intercalate_concat (front : List (List Char)) (last : List Char) :
    ['\n'].intercalate (front ++ [last]) = unlines front ++ last := by
  induction front with
  | nil => exact List.intercalate_singleton
  | cons line front ih =>
    rw [List.cons_append, List.intercalate_cons_of_ne_nil (by simp), ih]
    simp [unlines]

theorem mem_of_mem_splitOn {separator c : Char} {text piece : List Char}
    (among : piece ∈ text.splitOn separator) (member : c ∈ piece) : c ∈ text ∧ c ≠ separator := by
  induction text generalizing piece with
  | nil =>
    rw [List.splitOn_nil, List.mem_singleton] at among
    rw [among] at member
    cases member
  | cons first text ih =>
    rw [List.splitOn_cons_eq_if_modifyHead] at among
    split at among
    · rcases List.mem_cons.mp among with rfl | later
      · cases member
      · exact ⟨List.mem_cons_of_mem _ (ih later member).1, (ih later member).2⟩
    · next other =>
      obtain ⟨head, tail, split⟩ := List.exists_cons_of_ne_nil (List.splitOn_ne_nil separator text)
      rw [split] at among ih
      rcases List.mem_cons.mp among with rfl | later
      · rcases List.mem_cons.mp member with rfl | rest
        · exact ⟨List.mem_cons_self, by simpa using other⟩
        · obtain ⟨inside, apart⟩ := ih List.mem_cons_self rest
          exact ⟨List.mem_cons_of_mem _ inside, apart⟩
      · obtain ⟨inside, apart⟩ := ih (List.mem_cons_of_mem _ later) member
        exact ⟨List.mem_cons_of_mem _ inside, apart⟩

theorem splitOn_trimEnd_unlines {p : Char → Bool} {front : List (List Char)} {last : List Char}
    (unbroken : ∀ line ∈ front ++ [last], '\n' ∉ line) (line_break : p '\n' = true)
    (solid : last.rdropWhile p ≠ []) :
    ((unlines (front ++ [last])).rdropWhile p).splitOn '\n' = front ++ [last.rdropWhile p] := by
  have trimmed : (unlines (front ++ [last])).rdropWhile p =
      ['\n'].intercalate (front ++ [last.rdropWhile p]) := by
    have ending : unlines [last] = last ++ ['\n'] := by simp [unlines]
    have blank : (['\n'] : List Char).rdropWhile p = [] := by simp [line_break]
    rw [unlines_append, ending, ← List.append_assoc, rdropWhile_append_of_eq_nil _ blank,
      rdropWhile_append_of_ne_nil _ solid, intercalate_concat]
  rw [trimmed, List.splitOn_intercalate _ ?_ (by simp)]
  intro line member
  rcases List.mem_append.mp member with old | new
  · exact unbroken line (List.mem_append_left _ old)
  · obtain rfl := List.mem_singleton.mp new
    exact fun inside => unbroken last (List.mem_append_right _ List.mem_cons_self)
      ((List.rdropWhile_prefix p last).subset inside)

end KnotOps.Text
