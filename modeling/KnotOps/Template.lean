import Mathlib.Data.List.Perm.Basic
import Mathlib.Data.List.Count
import Mathlib.Algebra.BigOperators.Group.List.Basic
import Mathlib.Algebra.Ring.Nat

/-! Templates with placeholders in braces.
A brace of the text is doubled, and a key stands between two single ones.  A
grammar parses the templates; all that is known of it is that it reads text
without braces, and the placeholders it knows.  Text that is put into a template
as it is comes out unchanged, whatever the values of the placeholders are, when it
has no braces, and under a grammar that takes two braces of the template for each
that it reads only then.  What comes out has blanks in place of its tabs. -/

namespace KnotOps.Template

def isBrace (c : Char) : Bool := c == '{' || c == '}'

def braces (text : List Char) : Nat := text.countP isBrace

def BraceFree (text : List Char) : Prop := braces text = 0

instance (text : List Char) : Decidable (BraceFree text) := inferInstanceAs (Decidable (_ = _))

@[simp] theorem braces_nil : braces [] = 0 := rfl

@[simp] theorem braces_append (first second : List Char) :
    braces (first ++ second) = braces first + braces second :=
  List.countP_append

@[simp] theorem braceFree_append {first second : List Char} :
    BraceFree (first ++ second) ↔ BraceFree first ∧ BraceFree second := by
  simp [BraceFree]

theorem braceFree_cons {c : Char} {text : List Char} :
    BraceFree (c :: text) ↔ isBrace c = false ∧ BraceFree text := by
  simp [BraceFree, braces, List.countP_cons, and_comm]

def TabFree (text : List Char) : Prop := '\t' ∉ text

instance (text : List Char) : Decidable (TabFree text) := inferInstanceAs (Decidable (¬_))

@[simp] theorem tabFree_nil : TabFree [] := List.not_mem_nil

@[simp] theorem tabFree_append {first second : List Char} :
    TabFree (first ++ second) ↔ TabFree first ∧ TabFree second := by
  simp [TabFree]

@[simp] theorem tabFree_cons {c : Char} {text : List Char} :
    TabFree (c :: text) ↔ '\t' ≠ c ∧ TabFree text := by
  simp [TabFree]

def tabWidth : Nat := 8

def expandTabs (text : List Char) : List Char :=
  text.flatMap fun c => if c = '\t' then List.replicate tabWidth ' ' else [c]

@[simp] theorem expandTabs_nil : expandTabs [] = [] := rfl

theorem expandTabs_append (first second : List Char) :
    expandTabs (first ++ second) = expandTabs first ++ expandTabs second :=
  List.flatMap_append

theorem tabFree_expandTabs (text : List Char) : TabFree (expandTabs text) := by
  intro member
  obtain ⟨c, -, here⟩ := List.mem_flatMap.mp member
  split_ifs at here with tab
  · exact absurd (List.eq_of_mem_replicate here) (by decide)
  · exact tab (List.mem_singleton.mp here).symm

theorem expandTabs_of_tabFree {text : List Char} (free : TabFree text) :
    expandTabs text = text := by
  induction text with
  | nil => rfl
  | cons c text ih =>
    obtain ⟨plain, rest⟩ := tabFree_cons.mp free
    have first : expandTabs (c :: text) =
        (if c = '\t' then List.replicate tabWidth ' ' else [c]) ++ expandTabs text := rfl
    rw [first, if_neg (Ne.symm plain), ih rest]
    rfl

@[simp] theorem braces_expandTabs (text : List Char) : braces (expandTabs text) = braces text := by
  induction text with
  | nil => rfl
  | cons c text ih =>
    have first : expandTabs (c :: text) =
        (if c = '\t' then List.replicate tabWidth ' ' else [c]) ++ expandTabs text := rfl
    have whole : braces (c :: text) = braces [c] + braces text := braces_append [c] text
    rw [first, braces_append, ih, whole]
    split_ifs with tab
    · subst tab
      rfl
    · rfl

structure Key where
  text : List Char
  nonempty : text ≠ []
  braceFree : BraceFree text
deriving DecidableEq

inductive Piece where
  | char (c : Char)
  | placeholder (key : Key)
deriving DecidableEq

namespace Piece

def spell : Piece → List Char
  | char c => if isBrace c then [c, c] else [c]
  | placeholder key => '{' :: (key.text ++ ['}'])

def expand (values : Key → List Char) : Piece → List Char
  | char c => expandTabs [c]
  | placeholder key => values key

def escaped : Piece → Bool
  | char c => isBrace c
  | placeholder _ => false

def key? : Piece → Option Key
  | char _ => none
  | placeholder key => some key

end Piece

def spell (pieces : List Piece) : List Char := pieces.flatMap Piece.spell

def expand (values : Key → List Char) (pieces : List Piece) : List Char :=
  pieces.flatMap (Piece.expand values)

def escapes (pieces : List Piece) : Nat := pieces.countP Piece.escaped

def keys (pieces : List Piece) : List Key := pieces.filterMap Piece.key?

structure Grammar (known : List Key) where
  parse : List Char → Option (List Piece)
  accepts : ∀ pieces, escapes pieces = 0 → keys pieces ⊆ known →
    parse (spell pieces) = some pieces

/-- Each brace that is read, and each placeholder, takes two braces of the template. -/
def Grammar.Paired {known : List Key} (g : Grammar known) : Prop :=
  ∀ template pieces, g.parse template = some pieces →
    braces template = 2 * escapes pieces + 2 * (keys pieces).length

@[simp] theorem spell_append (first second : List Piece) :
    spell (first ++ second) = spell first ++ spell second :=
  List.flatMap_append

@[simp] theorem expand_append (values : Key → List Char) (first second : List Piece) :
    expand values (first ++ second) = expand values first ++ expand values second :=
  List.flatMap_append

@[simp] theorem keys_char (c : Char) (pieces : List Piece) :
    keys (.char c :: pieces) = keys pieces := rfl

@[simp] theorem keys_placeholder (key : Key) (pieces : List Piece) :
    keys (.placeholder key :: pieces) = key :: keys pieces := rfl

@[simp] theorem escapes_char (c : Char) (pieces : List Piece) :
    escapes (.char c :: pieces) = escapes pieces + if isBrace c then 1 else 0 :=
  List.countP_cons

@[simp] theorem escapes_placeholder (key : Key) (pieces : List Piece) :
    escapes (.placeholder key :: pieces) = escapes pieces := rfl

theorem braces_char (c : Char) : braces (Piece.char c).spell = if isBrace c then 2 else 0 := by
  by_cases brace : isBrace c = true <;> simp [Piece.spell, brace, braces]

theorem braces_placeholder (key : Key) : braces (Piece.placeholder key).spell = 2 := by
  have inside : braces key.text = 0 := key.braceFree
  have whole : (Piece.placeholder key).spell = ['{'] ++ key.text ++ ['}'] := rfl
  rw [whole, braces_append, braces_append, inside]
  rfl

@[simp] theorem escapes_append (first second : List Piece) :
    escapes (first ++ second) = escapes first + escapes second :=
  List.countP_append

@[simp] theorem keys_append (first second : List Piece) :
    keys (first ++ second) = keys first ++ keys second :=
  List.filterMap_append

theorem braces_spell (pieces : List Piece) :
    braces (spell pieces) = 2 * escapes pieces + 2 * (keys pieces).length := by
  induction pieces with
  | nil => rfl
  | cons piece pieces ih =>
    have rest : spell (piece :: pieces) = piece.spell ++ spell pieces := rfl
    rw [rest, braces_append, ih]
    cases piece with
    | char c =>
      rw [braces_char, keys_char, escapes_char]
      split_ifs <;> omega
    | placeholder key =>
      rw [braces_placeholder, keys_placeholder, escapes_placeholder, List.length_cons]
      omega

theorem braces_expand (values : Key → List Char) (pieces : List Piece) :
    braces (expand values pieces) =
      escapes pieces + ((keys pieces).map fun key => braces (values key)).sum := by
  induction pieces with
  | nil => rfl
  | cons piece pieces ih =>
    have rest : expand values (piece :: pieces) = piece.expand values ++ expand values pieces := rfl
    rw [rest, braces_append, ih]
    cases piece with
    | char c =>
      have one : braces (Piece.expand values (.char c)) = if isBrace c then 1 else 0 := by
        rw [Piece.expand, braces_expandTabs]
        simp [braces, List.countP_cons]
      rw [one, keys_char, escapes_char]
      omega
    | placeholder key =>
      have value : Piece.expand values (.placeholder key) = values key := rfl
      rw [value, keys_placeholder, escapes_placeholder, List.map_cons, List.sum_cons]
      omega

def literal (text : List Char) : List Piece := text.map Piece.char

theorem spell_literal {text : List Char} (free : BraceFree text) : spell (literal text) = text := by
  induction text with
  | nil => rfl
  | cons c text ih =>
    obtain ⟨plain, rest⟩ := braceFree_cons.mp free
    have first : spell (literal (c :: text)) = (Piece.char c).spell ++ spell (literal text) := rfl
    rw [first, ih rest, Piece.spell, plain]
    rfl

theorem literal_inert {text : List Char} (free : BraceFree text) :
    escapes (literal text) = 0 ∧ keys (literal text) = [] := by
  induction text with
  | nil => exact ⟨rfl, rfl⟩
  | cons c text ih =>
    obtain ⟨plain, rest⟩ := braceFree_cons.mp free
    have first : literal (c :: text) = .char c :: literal text := rfl
    simp [first, plain, ih rest]

theorem expand_literal (values : Key → List Char) (text : List Char) :
    expand values (literal text) = expandTabs text := by
  induction text with
  | nil => rfl
  | cons c text ih =>
    have first : expand values (literal (c :: text)) =
        expandTabs [c] ++ expand values (literal text) := rfl
    rw [first, ih, ← expandTabs_append]
    rfl

theorem tabFree_expand {values : Key → List Char} (free : ∀ key, TabFree (values key))
    (pieces : List Piece) : TabFree (expand values pieces) := by
  induction pieces with
  | nil => exact tabFree_nil
  | cons piece pieces ih =>
    have first : expand values (piece :: pieces) =
        piece.expand values ++ expand values pieces := rfl
    rw [first, tabFree_append]
    cases piece with
    | char c => exact ⟨tabFree_expandTabs [c], ih⟩
    | placeholder key => exact ⟨free key, ih⟩

variable {known : List Key}

/-- The template is well formed, and whatever values are admissible for its
placeholders, it comes out as the line. -/
def Grammar.Reads (g : Grammar known) (template : List Char) (Admissible : (Key → List Char) → Prop)
    (line : (Key → List Char) → List Char) : Prop :=
  ∃ pieces, g.parse template = some pieces ∧
    ∀ values, Admissible values → expand values pieces = line values

theorem Grammar.Reads.congr {g : Grammar known} {template : List Char}
    {Admissible : (Key → List Char) → Prop} {line line' : (Key → List Char) → List Char}
    (same : ∀ values, Admissible values → line values = line' values) :
    g.Reads template Admissible line ↔ g.Reads template Admissible line' := by
  constructor
  · rintro ⟨pieces, parsed, reads⟩
    exact ⟨pieces, parsed, fun values admissible => by
      rw [reads values admissible, same values admissible]⟩
  · rintro ⟨pieces, parsed, reads⟩
    exact ⟨pieces, parsed, fun values admissible => by
      rw [reads values admissible, same values admissible]⟩

theorem Grammar.Reads.tabFree {g : Grammar known} {template : List Char}
    {Admissible : (Key → List Char) → Prop} {line : (Key → List Char) → List Char}
    (reads : g.Reads template Admissible line) {values : Key → List Char}
    (admissible : Admissible values) (free : ∀ key, TabFree (values key)) :
    TabFree (line values) := by
  obtain ⟨pieces, -, expands⟩ := reads
  rw [← expands values admissible]
  exact tabFree_expand free pieces

theorem Grammar.forall_reads {ι : Type} [Nonempty ι] {g : Grammar known} {template : List Char}
    {Admissible : ι → (Key → List Char) → Prop} {line : (Key → List Char) → List Char} :
    (∀ i, g.Reads template (Admissible i) line) ↔
      g.Reads template (fun values => ∃ i, Admissible i values) line := by
  constructor
  · intro reads
    obtain ⟨pieces, parsed, -⟩ := reads (Classical.arbitrary ι)
    refine ⟨pieces, parsed, fun values ⟨i, admissible⟩ => ?_⟩
    obtain ⟨pieces', parsed', expands⟩ := reads i
    obtain rfl : pieces = pieces' := Option.some.inj (parsed.symm.trans parsed')
    exact expands values admissible
  · rintro ⟨pieces, parsed, expands⟩ i
    exact ⟨pieces, parsed, fun values admissible => expands values ⟨i, admissible⟩⟩

/-- For every key there are admissible values that differ in one brace there, and in
no brace elsewhere. -/
def Rich (Admissible : (Key → List Char) → Prop) : Prop :=
  ∀ key, ∃ values values', Admissible values ∧ Admissible values' ∧
    braces (values' key) = braces (values key) + 1 ∧
    ∀ other, other ≠ key → braces (values' other) = braces (values other)

theorem Rich.of_update {Admissible : (Key → List Char) → Prop}
    (free : ∀ key, ∃ values more, braces more = braces (values key) + 1 ∧
      Admissible values ∧ Admissible (Function.update values key more)) : Rich Admissible := by
  intro key
  obtain ⟨values, more, one, admissible, admissible'⟩ := free key
  refine ⟨values, Function.update values key more, admissible, admissible', ?_, ?_⟩
  · rw [Function.update_self, one]
  · intro other different
    rw [Function.update_of_ne different]

theorem sum_map_succ {key : Key} {f f' : Key → Nat} (here : f' key = f key + 1)
    (elsewhere : ∀ other, other ≠ key → f' other = f other) (l : List Key) :
    (l.map f').sum = (l.map f).sum + l.count key := by
  induction l with
  | nil => rfl
  | cons first l ih =>
    by_cases same : first = key
    · simp [same, here, ih]
      omega
    · simp [elsewhere first same, ih, List.count_cons_of_ne same]
      omega

/-- The pieces that an author writes: text without braces, and known placeholders. -/
def Written (known : List Key) (pieces : List Piece) : Prop :=
  escapes pieces = 0 ∧ keys pieces ⊆ known

instance (known : List Key) (pieces : List Piece) : Decidable (Written known pieces) :=
  inferInstanceAs (Decidable (_ ∧ _))

theorem Grammar.reads_splice (g : Grammar known) (Admissible : (Key → List Char) → Prop)
    (front back : List Piece) (before : Written known front) (after : Written known back)
    {text : List Char} (free : BraceFree text) :
    g.Reads (spell front ++ text ++ spell back) Admissible fun values =>
      expand values front ++ expandTabs text ++ expand values back := by
  obtain ⟨inert, noKeys⟩ := literal_inert free
  have accepted := g.accepts (front ++ literal text ++ back)
    (by simp [before.1, inert, after.1])
    (by simpa [noKeys] using ⟨before.2, after.2⟩)
  rw [spell_append, spell_append, spell_literal free] at accepted
  refine ⟨front ++ literal text ++ back, accepted, fun values _ => ?_⟩
  rw [expand_append, expand_append, expand_literal]

/-- Text between pieces of the author that comes out unchanged has no brace. -/
theorem Grammar.Reads.braceFree {g : Grammar known} (paired : g.Paired)
    {Admissible : (Key → List Char) → Prop} (rich : Rich Admissible) {front back : List Piece}
    {text : List Char}
    (reads : g.Reads (spell front ++ text ++ spell back) Admissible fun values =>
      expand values front ++ text ++ expand values back) : BraceFree text := by
  obtain ⟨pieces, parsed, reads⟩ := reads
  have template := paired _ pieces parsed
  simp only [braces_append, braces_spell] at template
  have shown {values : Key → List Char} (admissible : Admissible values) :=
    congrArg braces (reads values admissible)
  simp only [braces_append, braces_expand] at shown
  have counted (key : Key) :
      (keys pieces).count key = (keys front).count key + (keys back).count key := by
    obtain ⟨values, values', admissible, admissible', here, elsewhere⟩ := rich key
    have less := shown admissible
    have more := shown admissible'
    simp only [sum_map_succ here elsewhere] at more
    omega
  have same : (keys pieces).Perm (keys front ++ keys back) :=
    List.perm_iff_count.mpr fun key => by rw [List.count_append, counted key]
  have lengths := same.length_eq
  rw [List.length_append] at lengths
  obtain ⟨values, -, admissible, -⟩ := rich ⟨['m'], by simp, by decide⟩
  have line := shown admissible
  have sums := (same.map fun key => braces (values key)).sum_eq
  rw [List.map_append, List.sum_append] at sums
  unfold BraceFree
  omega

def Key.snoc (key : Key) (c : Char) (plain : isBrace c = false) : Key where
  text := key.text ++ [c]
  nonempty := by simp
  braceFree := braceFree_append.mpr ⟨key.braceFree, braceFree_cons.mpr ⟨plain, rfl⟩⟩

def Key.single (c : Char) (plain : isBrace c = false) : Key :=
  ⟨[c], by simp, braceFree_cons.mpr ⟨plain, rfl⟩⟩

inductive Reading where
  | text
  | opened
  | closed
  | key (key : Key)

def Reading.taken : Reading → List Char
  | .text => []
  | .opened => ['{']
  | .closed => ['}']
  | .key k => '{' :: k.text

def read : Reading → List Char → Option (List Piece)
  | .text, [] => some []
  | .opened, [] | .closed, [] | .key _, [] => none
  | .text, c :: rest =>
    if c = '{' then read .opened rest
    else if c = '}' then read .closed rest
    else (read .text rest).map (.char c :: ·)
  | .opened, c :: rest =>
    if c = '{' then (read .text rest).map (.char '{' :: ·)
    else if plain : isBrace c = false then read (.key (.single c plain)) rest
    else none
  | .closed, c :: rest =>
    if c = '}' then (read .text rest).map (.char '}' :: ·) else none
  | .key key, c :: rest =>
    if c = '}' then (read .text rest).map (.placeholder key :: ·)
    else if plain : isBrace c = false then read (.key (key.snoc c plain)) rest
    else none

theorem read_spelled {reading : Reading} {template : List Char} {pieces : List Piece}
    (parsed : read reading template = some pieces) : spell pieces = reading.taken ++ template := by
  induction template generalizing reading pieces with
  | nil =>
    cases reading with
    | text => exact Option.some.inj parsed ▸ rfl
    | opened | closed | key key => cases parsed
  | cons c rest ih =>
    cases reading with
    | text =>
      rw [read] at parsed
      split_ifs at parsed with opens closes
      · exact opens ▸ ih parsed
      · exact closes ▸ ih parsed
      · obtain ⟨more, read_more, rfl⟩ := Option.map_eq_some_iff.mp parsed
        have plain : isBrace c = false := by simp [isBrace, opens, closes]
        have first : spell (.char c :: more) = (Piece.char c).spell ++ spell more := rfl
        rw [first, ih read_more, Piece.spell, plain]
        rfl
    | opened =>
      rw [read] at parsed
      split_ifs at parsed with opens plain
      · obtain ⟨more, read_more, rfl⟩ := Option.map_eq_some_iff.mp parsed
        have first : spell (.char '{' :: more) = ['{', '{'] ++ spell more := rfl
        rw [first, ih read_more, opens]
        rfl
      · exact ih parsed
    | closed =>
      rw [read] at parsed
      split_ifs at parsed with closes
      obtain ⟨more, read_more, rfl⟩ := Option.map_eq_some_iff.mp parsed
      have first : spell (.char '}' :: more) = ['}', '}'] ++ spell more := rfl
      rw [first, ih read_more, closes]
      rfl
    | key key =>
      rw [read] at parsed
      split_ifs at parsed with closes plain
      · obtain ⟨more, read_more, rfl⟩ := Option.map_eq_some_iff.mp parsed
        have first : spell (.placeholder key :: more) =
            '{' :: (key.text ++ ['}']) ++ spell more := rfl
        rw [first, ih read_more, closes]
        simp [Reading.taken]
      · rw [ih parsed]
        simp [Reading.taken, Key.snoc]

theorem read_key (key : Key) {text : List Char} (free : BraceFree text) (rest : List Char) :
    read (.key key) (text ++ '}' :: rest) =
      (read .text rest).map (.placeholder ⟨key.text ++ text, by simp [key.nonempty],
        braceFree_append.mpr ⟨key.braceFree, free⟩⟩ :: ·) := by
  induction text generalizing key with
  | nil => simp [read]
  | cons c text ih =>
    obtain ⟨plain, more⟩ := braceFree_cons.mp free
    have other : c ≠ '}' := fun same => by simp [same, isBrace] at plain
    rw [List.cons_append, read, if_neg other, dif_pos plain, ih _ more]
    simp [Key.snoc]

theorem read_spell (pieces : List Piece) : read .text (spell pieces) = some pieces := by
  induction pieces with
  | nil => rfl
  | cons piece pieces ih =>
    cases piece with
    | char c =>
      have first : spell (.char c :: pieces) = (Piece.char c).spell ++ spell pieces := rfl
      rw [first]
      by_cases opens : c = '{'
      · subst opens
        simp [Piece.spell, isBrace, read, ih]
      · by_cases closes : c = '}'
        · subst closes
          simp [Piece.spell, isBrace, read, ih]
        · simp [Piece.spell, isBrace, read, ih, opens, closes]
    | placeholder key =>
      obtain ⟨text, nonempty, free⟩ := key
      obtain ⟨c, text, rfl⟩ := List.exists_cons_of_ne_nil nonempty
      obtain ⟨plain, more⟩ := braceFree_cons.mp free
      have other : c ≠ '{' := fun same => by simp [same, isBrace] at plain
      have first : spell (.placeholder ⟨c :: text, nonempty, free⟩ :: pieces) =
          '{' :: c :: (text ++ '}' :: spell pieces) := by
        simp [spell, Piece.spell]
      rw [first, read, if_pos rfl, read, if_neg other, dif_pos plain, read_key _ more, ih]
      rfl

/-- The strictest grammar: braces are doubled or around a key, and nothing else. -/
def Grammar.strict (known : List Key) : Grammar known where
  parse := read .text
  accepts pieces _ _ := read_spell pieces

theorem Grammar.strict_paired (known : List Key) : (Grammar.strict known).Paired := by
  intro template pieces parsed
  rw [← braces_spell, read_spelled parsed]
  rfl

end KnotOps.Template
