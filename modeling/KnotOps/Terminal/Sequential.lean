import KnotOps.Terminal.Sequence
import KnotOps.Terminal.Marks
import KnotOps.Machine

/-! What a task sequence is for: stages that get their verdicts one after
another, and a root that is decided with the last of them.
`step` is the whole machine.  The simulation runs the bulk skips of `fail` and
`finish` one `verdict` at a time; `skips` is what they add up to. -/

namespace KnotOps.Terminal

open Machine

inductive Part where
  | head
  | stage (i : Nat)
deriving DecidableEq, Repr

def Part.Valid (stages : Nat) : Part → Prop
  | head => True
  | stage i => i < stages

structure Sequential where
  stages : Nat
  position : Nat
  root : Option Mark
  records : List (Part × Mark)

namespace Sequential

def blank (stages : Nat) : Sequential :=
  ⟨stages, 0, none, []⟩

def activate (m : Sequential) : Sequential :=
  if m.position < m.stages then
    { m with records := m.records ++ [(.stage m.position, .run none)] }
  else m

def push (mark : Mark) (m : Sequential) : Sequential :=
  { m with
    position := m.position + 1
    records := m.records ++ [(.stage m.position, mark)] }

def settle (mark : Mark) (m : Sequential) : Sequential :=
  { m with
    root := some mark
    records := m.records ++ [(.head, mark)] }

/-- The current stage gets its verdict, and the last one completes an open root. -/
def verdict (mark : Mark) (m : Sequential) : Sequential :=
  if m.root = none ∧ m.position + 1 = m.stages then (m.push mark).settle (.success "success")
  else m.push mark

def skips (msg : String) (first stages : Nat) : List (Part × Mark) :=
  (List.range' first (stages - first)).map fun i => (.stage i, .skip msg)

def pass (mark : Mark) (m : Sequential) : Sequential :=
  if m.position < m.stages then (m.verdict mark).activate else m

def fail (m : Sequential) : Sequential :=
  if m.position < m.stages then
    { m with
      position := m.stages
      root := some .fail
      records := m.records ++ [(.stage m.position, .fail), (.head, .fail)] ++
        skips "skipped due to previous error" (m.position + 1) m.stages }
  else m

def finish (msg : String) (m : Sequential) : Sequential :=
  let final : Mark := .success (if m.position < m.stages then "success" else msg)
  { m with
    position := m.stages
    root := some final
    records := m.records ++ skips "skipped" m.position m.stages ++ [(.head, final)] }

def step (m : Sequential) (op : SequenceOp) : Sequential :=
  if m.root.isSome then m
  else match op with
    | .ok msg => m.pass (.success msg)
    | .skip msg => m.pass (.skip msg)
    | .fail _ => m.fail
    | .finish msg => m.finish msg

def start (stages : Nat) (autostart : Bool) : Sequential :=
  if autostart then (blank stages).activate else blank stages

theorem verdict_of_decided {m : Sequential} (mark : Mark) (decided : m.root ≠ none) :
    m.verdict mark = m.push mark :=
  if_neg fun last => decided last.1

theorem verdict_of_more {m : Sequential} (mark : Mark) (more : m.position + 1 ≠ m.stages) :
    m.verdict mark = m.push mark :=
  if_neg fun last => more last.2

theorem verdict_last {m : Sequential} (mark : Mark) (isOpen : m.root = none)
    (last : m.position + 1 = m.stages) :
    m.verdict mark = (m.push mark).settle (.success "success") :=
  if_pos ⟨isOpen, last⟩

@[simp] theorem verdict_stages (m : Sequential) (mark : Mark) :
    (m.verdict mark).stages = m.stages := by
  unfold verdict
  split_ifs <;> rfl

@[simp] theorem verdict_position (m : Sequential) (mark : Mark) :
    (m.verdict mark).position = m.position + 1 := by
  unfold verdict
  split_ifs <;> rfl

@[simp] theorem activate_stages (m : Sequential) : m.activate.stages = m.stages := by
  unfold activate
  split_ifs <;> rfl

theorem pass_stages (m : Sequential) (mark : Mark) : (m.pass mark).stages = m.stages := by
  unfold pass
  split_ifs <;> simp

theorem step_stages (m : Sequential) (op : SequenceOp) : (m.step op).stages = m.stages := by
  unfold step
  split_ifs
  · rfl
  · cases op with
    | ok msg => exact m.pass_stages _
    | skip msg => exact m.pass_stages _
    | fail report =>
      change m.fail.stages = m.stages
      unfold fail
      split_ifs <;> rfl
    | finish msg => rfl

theorem exec_stages (m : Sequential) (ops : List SequenceOp) :
    (exec step m ops).stages = m.stages :=
  exec_invariant (fun n : Sequential => n.stages = m.stages)
    (fun n op same => (n.step_stages op).trans same) rfl ops

theorem start_stages (stages : Nat) (autostart : Bool) :
    (start stages autostart).stages = stages := by
  unfold start
  split_ifs <;> simp [blank]

theorem skips_of_le (msg : String) {first stages : Nat} (h : stages ≤ first) :
    skips msg first stages = [] := by
  have none_left : stages - first = 0 := by omega
  rw [skips, none_left]
  rfl

theorem skips_of_lt (msg : String) {first stages : Nat} (h : first < stages) :
    skips msg first stages = (.stage first, .skip msg) :: skips msg (first + 1) stages := by
  have one_more : stages - first = stages - (first + 1) + 1 := by omega
  rw [skips, one_more, List.range'_succ]
  rfl

theorem exec_skips_of_decided (msg : String) (left : Nat) {m : Sequential}
    (decided : m.root ≠ none) (bound : m.position + left = m.stages) :
    exec (fun m _ => m.verdict (.skip msg)) m (List.range' m.position left) =
      ⟨m.stages, m.stages, m.root, m.records ++ skips msg m.position m.stages⟩ := by
  induction left generalizing m with
  | zero =>
    obtain ⟨stages, position, root, records⟩ := m
    obtain rfl : position = stages := bound
    simp [skips_of_le]
  | succ left ih =>
    rw [List.range'_succ, exec_cons, verdict_of_decided _ decided]
    have rest := ih (m := m.push (.skip msg)) decided
      (show m.position + 1 + left = m.stages by omega)
    refine rest.trans ?_
    rw [skips_of_lt msg (show m.position < m.stages by omega)]
    simp [push]

theorem exec_skips_of_open (msg : String) (left : Nat) {m : Sequential} (isOpen : m.root = none)
    (bound : m.position + (left + 1) = m.stages) :
    exec (fun m _ => m.verdict (.skip msg)) m (List.range' m.position (left + 1)) =
      ⟨m.stages, m.stages, some (.success "success"),
        m.records ++ skips msg m.position m.stages ++ [(.head, .success "success")]⟩ := by
  induction left generalizing m with
  | zero =>
    rw [List.range'_succ, exec_cons, verdict_last _ isOpen bound,
      skips_of_lt msg (show m.position < m.stages by omega),
      skips_of_le msg (show m.stages ≤ m.position + 1 by omega)]
    simp [settle, push, ← bound]
  | succ left ih =>
    rw [List.range'_succ, exec_cons, verdict_of_more _ (by omega)]
    have rest := ih (m := m.push (.skip msg)) isOpen
      (show m.position + 1 + (left + 1) = m.stages by omega)
    refine rest.trans ?_
    rw [skips_of_lt msg (show m.position < m.stages by omega)]
    simp [push]

def ofPart (records : List (Part × Mark)) (part : Part) : List Mark :=
  (records.filter (·.1 = part)).map Prod.snd

def recordsOf (m : Sequential) (part : Part) : List Mark :=
  ofPart m.records part

def verdictsOf (m : Sequential) (part : Part) : List Mark :=
  (m.recordsOf part).filter Mark.terminal

/-- One verdict for every stage before the position and none from there on; the
root is decided when no stage is left. -/
structure Strict (autostart : Bool) (m : Sequential) : Prop where
  bound : m.position ≤ m.stages
  valid : ∀ r ∈ m.records, r.1.Valid m.stages
  passed : ∀ i < m.position, ∃ mark, m.verdictsOf (.stage i) = [mark]
  waiting : ∀ i, m.position ≤ i → m.verdictsOf (.stage i) = []
  noFailure : m.root = none → ∀ r ∈ m.records, r.2 ≠ .fail
  started : m.root = none →
    ∀ i, .run none ∈ m.recordsOf (.stage i) ↔
      i ≤ m.position ∧ i < m.stages ∧ (i = 0 → autostart = true)
  head : m.recordsOf .head = m.root.toList
  exhausted : 0 < m.stages → (m.root.isSome ↔ m.position = m.stages)

theorem ofPart_append (first second : List (Part × Mark)) (part : Part) :
    ofPart (first ++ second) part = ofPart first part ++ ofPart second part := by
  simp [ofPart]

@[simp] theorem ofPart_nil (part : Part) : ofPart [] part = [] := rfl

theorem ofPart_cons (part other : Part) (mark : Mark) (rest : List (Part × Mark)) :
    ofPart ((other, mark) :: rest) part =
      if other = part then mark :: ofPart rest part else ofPart rest part := by
  by_cases same : other = part <;> simp [ofPart, same]

theorem ofPart_skips_head (msg : String) (first stages : Nat) :
    ofPart (skips msg first stages) .head = [] := by
  rw [ofPart, skips, List.filter_map, List.filter_eq_nil_iff.mpr (by simp)]
  rfl

theorem ofPart_skips_stage (msg : String) (first stages i : Nat) :
    ofPart (skips msg first stages) (.stage i) =
      if first ≤ i ∧ i < stages then [.skip msg] else [] := by
  unfold skips
  generalize left : stages - first = k
  induction k generalizing first with
  | zero =>
    have outside : ¬ (first ≤ i ∧ i < stages) := by omega
    rw [if_neg outside]
    rfl
  | succ k ih =>
    rw [List.range'_succ, List.map_cons, ofPart_cons, ih (first + 1) (by omega)]
    by_cases here : first = i
    · have after : ¬ (first + 1 ≤ i ∧ i < stages) := by omega
      have now : first ≤ i ∧ i < stages := by omega
      rw [if_pos (congrArg Part.stage here), if_neg after, if_pos now]
    · have same : (first ≤ i ∧ i < stages) ↔ (first + 1 ≤ i ∧ i < stages) := by omega
      rw [if_neg (fun h => here (Part.stage.inj h)), if_congr same.symm rfl rfl]

theorem valid_skips (msg : String) (first stages : Nat) :
    ∀ r ∈ skips msg first stages, r.1.Valid stages := by
  intro r member
  obtain ⟨i, inRange, rfl⟩ := List.mem_map.mp member
  have bounds := List.mem_range'_1.mp inRange
  change i < stages
  omega

section Step

variable {autostart : Bool} {m : Sequential} {added : List (Part × Mark)}

theorem Strict.verdicts (h : m.Strict autostart) (next : Sequential)
    (added : List (Part × Mark)) (records : next.records = m.records ++ added)
    (order : m.position ≤ next.position) (mark : Nat → Mark)
    (between : ∀ i, (ofPart added (.stage i)).filter Mark.terminal =
      if m.position ≤ i ∧ i < next.position then [mark i] else []) :
    (∀ i < next.position, ∃ mark, next.verdictsOf (.stage i) = [mark]) ∧
      ∀ i, next.position ≤ i → next.verdictsOf (.stage i) = [] := by
  have split : ∀ i, next.verdictsOf (.stage i) = m.verdictsOf (.stage i) ++
      if m.position ≤ i ∧ i < next.position then [mark i] else [] := fun i => by
    rw [verdictsOf, recordsOf, records, ofPart_append, List.filter_append, between]
    rfl
  constructor
  · intro i before
    rw [split i]
    by_cases old : i < m.position
    · rw [if_neg (by omega), List.append_nil]
      exact h.passed i old
    · rw [if_pos (by omega), h.waiting i (by omega)]
      exact ⟨mark i, rfl⟩
  · intro i after
    rw [split i, if_neg (by omega), h.waiting i (by omega)]
    rfl

theorem pass_of_more {mark : Mark} (more : m.position + 1 < m.stages) :
    m.pass mark = ⟨m.stages, m.position + 1, m.root,
      m.records ++ [(.stage m.position, mark), (.stage (m.position + 1), .run none)]⟩ := by
  have inside : m.position < m.stages := by omega
  have activated : (m.push mark).position < (m.push mark).stages := more
  rw [pass, if_pos inside, verdict_of_more mark (by omega), activate, if_pos activated]
  simp [push]

theorem pass_last {mark : Mark} (isOpen : m.root = none) (last : m.position + 1 = m.stages) :
    m.pass mark = ⟨m.stages, m.stages, some (.success "success"),
      m.records ++ [(.stage m.position, mark), (.head, .success "success")]⟩ := by
  have inside : m.position < m.stages := by omega
  have exhausted : ¬ ((m.push mark).settle (.success "success")).position <
      ((m.push mark).settle (.success "success")).stages := by
    change ¬ m.position + 1 < m.stages
    omega
  rw [pass, if_pos inside, verdict_last mark isOpen last, activate, if_neg exhausted]
  simp [push, settle, last]

theorem pass_more_strict (h : m.Strict autostart) (isOpen : m.root = none) {mark : Mark}
    (terminal : mark.terminal = true) (notFail : mark ≠ .fail)
    (more : m.position + 1 < m.stages) : (m.pass mark).Strict autostart := by
  have notRun : Mark.run none ≠ mark := fun same => by simp [← same, Mark.terminal] at terminal
  have head := h.head
  rw [pass_of_more more]
  obtain ⟨passed, waiting⟩ := h.verdicts ⟨m.stages, m.position + 1, m.root, _⟩
    [(.stage m.position, mark), (.stage (m.position + 1), .run none)] rfl
    (Nat.le_succ _) (fun _ => mark) fun i => by
      rw [ofPart_cons, ofPart_cons, ofPart_nil]
      by_cases here : m.position = i
      · have inside : m.position ≤ i ∧ i < m.position + 1 := by omega
        rw [if_pos inside]
        simp [here, terminal]
      · have outside : ¬ (m.position ≤ i ∧ i < m.position + 1) := by omega
        rw [if_neg outside]
        by_cases after : m.position + 1 = i <;> simp [here, after, Mark.terminal]
  refine ⟨more.le, ?_, passed, waiting, fun _ => ?_, fun _ i => ?_, ?_, ?_⟩
  · intro r member
    rcases List.mem_append.mp member with old | new
    · exact h.valid r old
    · simp only [List.mem_cons, List.not_mem_nil, or_false] at new
      rcases new with rfl | rfl
      · exact (show m.position < m.stages by omega)
      · exact more
  · intro r member
    rcases List.mem_append.mp member with old | new
    · exact h.noFailure isOpen r old
    · simp only [List.mem_cons, List.not_mem_nil, or_false] at new
      rcases new with rfl | rfl
      · exact notFail
      · simp
  · have before := h.started isOpen i
    rw [recordsOf] at before ⊢
    rw [ofPart_append, List.mem_append, before, ofPart_cons, ofPart_cons, ofPart_nil]
    by_cases here : m.position = i
    · have inside : i < m.stages := by omega
      simp [here, notRun, inside]
    · by_cases after : m.position + 1 = i
      · have inside : i < m.stages := after ▸ more
        have later : i ≠ 0 := by omega
        simp [here, after, inside, later]
      · simp [here, after]
        omega
  · rw [recordsOf] at head ⊢
    rw [ofPart_append, head]
    simp [ofPart_cons]
  · intro some_stages
    simp [isOpen]
    omega

theorem Strict.decided (h : m.Strict autostart) (mark : Nat → Mark) {root : Mark}
    (isOpen : m.root = none)
    (valid : ∀ r ∈ added, r.1.Valid m.stages)
    (between : ∀ i, (ofPart added (.stage i)).filter Mark.terminal =
      if m.position ≤ i ∧ i < m.stages then [mark i] else [])
    (head : ofPart added .head = [root]) :
    (Sequential.mk m.stages m.stages (some root) (m.records ++ added)).Strict autostart := by
  obtain ⟨passed, waiting⟩ := h.verdicts
    ⟨m.stages, m.stages, some root, m.records ++ added⟩ added rfl h.bound mark between
  have oldHead := h.head
  refine ⟨le_refl _, ?_, passed, waiting, by simp, by simp, ?_, by simp⟩
  · intro r member
    rcases List.mem_append.mp member with old | new
    · exact h.valid r old
    · exact valid r new
  · rw [recordsOf] at oldHead ⊢
    rw [ofPart_append, oldHead, head, isOpen]
    rfl

theorem pass_last_strict (h : m.Strict autostart) (isOpen : m.root = none) {mark : Mark}
    (terminal : mark.terminal = true) (last : m.position + 1 = m.stages) :
    (m.pass mark).Strict autostart := by
  rw [pass_last isOpen last]
  apply h.decided (fun _ => mark) isOpen
  · intro r member
    simp only [List.mem_cons, List.not_mem_nil, or_false] at member
    rcases member with rfl | rfl
    · exact (show m.position < m.stages by omega)
    · trivial
  · intro i
    rw [ofPart_cons, ofPart_cons, ofPart_nil]
    by_cases here : m.position = i
    · have inside : m.position ≤ i ∧ i < m.stages := by omega
      rw [if_pos inside]
      simp [here, terminal]
    · have outside : ¬ (m.position ≤ i ∧ i < m.stages) := by omega
      rw [if_neg outside]
      simp [here]
  · simp [ofPart_cons]

theorem pass_strict (h : m.Strict autostart) (isOpen : m.root = none) {mark : Mark}
    (terminal : mark.terminal = true) (notFail : mark ≠ .fail) :
    (m.pass mark).Strict autostart := by
  rcases Nat.lt_trichotomy (m.position + 1) m.stages with more | last | after
  · exact pass_more_strict h isOpen terminal notFail more
  · exact pass_last_strict h isOpen terminal last
  · rw [pass, if_neg (by omega)]
    exact h

theorem fail_strict (h : m.Strict autostart) (isOpen : m.root = none) :
    m.fail.Strict autostart := by
  unfold fail
  by_cases inside : m.position < m.stages
  · rw [if_pos inside, List.append_assoc]
    apply h.decided
      (fun i => if i = m.position then .fail else .skip "skipped due to previous error") isOpen
    · intro r member
      rcases List.mem_append.mp member with first | skipped
      · simp only [List.mem_cons, List.not_mem_nil, or_false] at first
        rcases first with rfl | rfl
        · exact inside
        · trivial
      · exact valid_skips _ _ _ r skipped
    · intro i
      rw [ofPart_append, ofPart_cons, ofPart_cons, ofPart_nil, ofPart_skips_stage]
      by_cases here : m.position = i
      · have now : m.position ≤ i ∧ i < m.stages := by omega
        have after : ¬ (m.position + 1 ≤ i ∧ i < m.stages) := by omega
        rw [if_pos now, if_neg after, if_pos here.symm]
        simp [here, Mark.terminal]
      · have same : m.position + 1 ≤ i ∧ i < m.stages ↔ m.position ≤ i ∧ i < m.stages := by omega
        have other : i ≠ m.position := fun h => here h.symm
        by_cases between : m.position ≤ i ∧ i < m.stages
        · simp [here, other, same.mpr between, between, Mark.terminal]
        · have skipped := fun h => between (same.mp h)
          rw [if_neg skipped, if_neg between]
          simp [here]
    · rw [ofPart_append, ofPart_skips_head]
      simp [ofPart_cons]
  · rw [if_neg inside]
    exact h

theorem finish_strict (h : m.Strict autostart) (isOpen : m.root = none) (msg : String) :
    (m.finish msg).Strict autostart := by
  simp only [finish, List.append_assoc]
  apply h.decided (fun _ => .skip "skipped") isOpen
  · intro r member
    rcases List.mem_append.mp member with skipped | last
    · exact valid_skips _ _ _ r skipped
    · rw [List.mem_singleton.mp last]
      trivial
  · intro i
    rw [ofPart_append, ofPart_cons, ofPart_nil, ofPart_skips_stage]
    by_cases between : m.position ≤ i ∧ i < m.stages
    · simp [between, Mark.terminal]
    · rw [if_neg between]
      simp
  · rw [ofPart_append, ofPart_skips_head]
    simp [ofPart_cons]

theorem step_strict (h : m.Strict autostart) (op : SequenceOp) :
    (m.step op).Strict autostart := by
  unfold step
  by_cases isOpen : m.root = none
  · rw [if_neg (by simp [isOpen])]
    cases op with
    | ok msg => exact pass_strict h isOpen rfl (by simp)
    | skip msg => exact pass_strict h isOpen rfl (by simp)
    | fail report => exact fail_strict h isOpen
    | finish msg => exact finish_strict h isOpen msg
  · rw [if_pos (Option.isSome_iff_ne_none.mpr isOpen)]
    exact h

end Step

theorem blank_strict (stages : Nat) : (blank stages).Strict false where
  bound := Nat.zero_le _
  valid := by simp [blank]
  passed := by simp [blank]
  waiting _ _ := rfl
  noFailure := by simp [blank]
  started _ i := by
    change Mark.run none ∈ [] ↔ i ≤ 0 ∧ i < stages ∧ (i = 0 → false = true)
    simp only [List.not_mem_nil, Bool.false_eq_true, false_iff]
    intro ⟨first, _, notFirst⟩
    exact notFirst (Nat.le_zero.mp first)
  head := rfl
  exhausted inside := by
    have other : ¬ 0 = stages := Nat.ne_of_lt inside
    simpa [blank] using other

theorem start_strict (stages : Nat) (autostart : Bool) :
    (start stages autostart).Strict autostart := by
  have blank := blank_strict stages
  cases autostart with
  | false => exact blank
  | true =>
    rw [start, if_pos rfl, activate]
    by_cases inside : (Sequential.blank stages).position < (Sequential.blank stages).stages
    · rw [if_pos inside]
      have inside : 0 < stages := inside
      refine ⟨Nat.zero_le _, ?_, by simp [Sequential.blank], ?_, ?_, ?_, ?_, blank.exhausted⟩
      · intro r member
        have first : r = (.stage 0, .run none) := by simpa [Sequential.blank] using member
        rw [first]
        exact inside
      · intro i _
        by_cases first : i = 0 <;>
          simp [verdictsOf, recordsOf, ofPart, Sequential.blank, first, Mark.terminal]
      · simp [Sequential.blank]
      · intro _ i
        change Mark.run none ∈ ofPart [(Part.stage 0, Mark.run none)] (.stage i) ↔
          i ≤ 0 ∧ i < stages ∧ (i = 0 → true = true)
        rw [ofPart_cons, ofPart_nil]
        by_cases first : i = 0
        · simp [first, inside]
        · have other : Part.stage 0 ≠ .stage i := fun h => first (Part.stage.inj h).symm
          simp [other, first]
      · rfl
    · rw [if_neg inside]
      have none_left : ¬ 0 < stages := inside
      refine ⟨blank.bound, blank.valid, blank.passed, blank.waiting, blank.noFailure, ?_,
        blank.head, blank.exhausted⟩
      intro isOpen i
      rw [blank.started isOpen i]
      change i ≤ 0 ∧ i < stages ∧ _ ↔ i ≤ 0 ∧ i < stages ∧ _
      omega

end Sequential

end KnotOps.Terminal
