import Mathlib.Data.List.Pairwise
import KnotOps.Terminal.Blocks
import KnotOps.Terminal.Script

/-! Elements of several threads on one layout.
Each element belongs to one thread, which makes the calls of its operations one by
one; a call on the layout holds the lock of the anchor, and between two calls of one
element the others can make theirs.  An element adds bars under its own, hides bars
under its head, and moves the anchor to its last bar or back to its head. -/

namespace KnotOps.Terminal

open Machine Splice

universe u

/-- A call on the layout, or on a bar in it, that an element makes. -/
inductive LayoutCall (ι : Type u) where
  | insert (i : ι)
  | insertAfter (i : ι) (target : LayoutNode)
  | finishAndClear (i : ι) (bar : LayoutNode)
  | setAnchor (i : ι) (point : LayoutNode)
  | updateAnchorIfIn (i : ι) (nodes : List LayoutNode) (mainNode : LayoutNode)
  | onBar (call : MultiCall)
deriving DecidableEq

instance : DecidablePred MultiCall.Quiet := fun _ => inferInstanceAs (Decidable (_ ∧ _))

structure Threads (ι : Type u) where
  layout : TaskLayout
  /-- What an element shows, from top to bottom. -/
  bars : ι → List LayoutNode

namespace Threads

variable {ι : Type u}

def start : Threads ι := ⟨TaskLayout.new none, fun _ => []⟩

def step [DecidableEq ι] (s : Threads ι) : LayoutCall ι → Option (Threads ι)
  | .insert i =>
    if s.bars i = [] then
      let (head, layout) := s.layout.insert
      some ⟨layout, Function.update s.bars i [head]⟩
    else none
  | .insertAfter i target =>
    if target ∈ s.bars i then
      let (bar, layout) := s.layout.insertAfter target
      some ⟨layout, Function.update s.bars i (spliceAfter target bar (s.bars i))⟩
    else none
  | .finishAndClear i bar =>
    if bar ∈ (s.bars i).tail then
      some ⟨s.layout.clearing [bar], Function.update s.bars i ((s.bars i).filter (· ≠ bar))⟩
    else none
  | .setAnchor i point =>
    if (s.bars i).getLast? = some point then some { s with layout := s.layout.setAnchor point }
    else none
  | .updateAnchorIfIn i nodes mainNode =>
    if (s.bars i).head? = some mainNode then
      some { s with layout := s.layout.updateAnchorIfIn nodes mainNode }
    else none
  | .onBar call => if call.Quiet then some { s with layout := s.layout.calling [call] } else none

/-- An element that takes the anchor back to its head shows nothing under it. -/
def Settles (s : Threads ι) : LayoutCall ι → Prop
  | .updateAnchorIfIn i nodes mainNode =>
    (∃ a ∈ s.layout.anchor, a ∈ nodes) → (s.bars i).getLast? = some mainNode
  | .insert _ | .insertAfter _ _ | .finishAndClear _ _ | .setAnchor _ _ | .onBar _ => True

instance (s : Threads ι) : DecidablePred s.Settles
  | .updateAnchorIfIn _ _ _ => inferInstanceAs (Decidable (_ → _))
  | .insert _ | .insertAfter _ _ | .finishAndClear _ _ | .setAnchor _ _ | .onBar _ =>
    inferInstanceAs (Decidable True)

def shownTo (s : Threads ι) (a : LayoutNode) : List LayoutNode :=
  (upTo a s.layout.multi.ordering).filter (· ∉ s.layout.multi.cleared)

/-- The screen shows the elements one after the other, and the anchor stands between
two of them, or did before it was hidden. -/
structure Apart (s : Threads ι) (order : List ι) : Prop where
  wellFormed : s.layout.WellFormed
  cleared : ∀ n ∈ s.layout.multi.cleared, n.id < s.layout.nodeCounter
  empty : s.layout.anchor = none → s.layout.multi.ordering = []
  nodup : order.Nodup
  opened : ∀ i, i ∈ order ↔ s.bars i ≠ []
  visible : s.layout.visible = order.flatMap s.bars
  boundary : ∀ a, s.layout.anchor = some a → ∃ above under, order = above ++ under ∧
    s.shownTo a = above.flatMap s.bars

theorem start_apart : (start : Threads ι).Apart [] where
  wellFormed := ⟨.nil, nofun, nofun⟩
  cleared := nofun
  empty _ := rfl
  nodup := .nil
  opened i := by simp [start]
  visible := rfl
  boundary := nofun

namespace Apart

variable {s : Threads ι} {order : List ι} (h : s.Apart order)
include h

theorem bar_shown {i : ι} {n : LayoutNode} (member : n ∈ s.bars i) : n ∈ s.layout.visible := by
  rw [h.visible, List.mem_flatMap]
  exact ⟨i, (h.opened i).mpr (List.ne_nil_of_mem member), member⟩

theorem bar_placed {i : ι} {n : LayoutNode} (member : n ∈ s.bars i) :
    n ∈ s.layout.multi.ordering ∧ n ∉ s.layout.multi.cleared := by
  simpa [TaskLayout.visible, MultiProgress.visible] using h.bar_shown member

theorem visible_nodup : (order.flatMap s.bars).Nodup :=
  h.visible ▸ h.wellFormed.nodup.filter _

theorem bars_nodup (i : ι) : (s.bars i).Nodup := by
  by_cases unopened : s.bars i = []
  · rw [unopened]
    exact .nil
  · exact (List.nodup_flatMap.mp h.visible_nodup).1 i ((h.opened i).mpr unopened)

theorem alone {i : ι} {n : LayoutNode} (member : n ∈ s.bars i) : ∀ j ≠ i, n ∉ s.bars j := by
  intro j other shared
  have inOrder {k : ι} (holds : n ∈ s.bars k) : k ∈ order :=
    (h.opened k).mpr (List.ne_nil_of_mem holds)
  have disjoint := (List.nodup_flatMap.mp h.visible_nodup).2
  have : Std.Symm (Function.onFun List.Disjoint s.bars) := ⟨fun _ _ apart => apart.symm⟩
  exact disjoint.forall (inOrder shared) (inOrder member) other shared member

theorem next_fresh : (⟨s.layout.nodeCounter⟩ : LayoutNode) ∉ s.layout.multi.ordering :=
  fun old => Nat.lt_irrefl _ (h.wellFormed.fresh _ old)

theorem next_shown : (⟨s.layout.nodeCounter⟩ : LayoutNode) ∉ s.layout.multi.cleared :=
  fun old => Nat.lt_irrefl _ (h.cleared _ old)

theorem boundary_of_last {i : ι} {point : LayoutNode} (last : (s.bars i).getLast? = some point) :
    ∃ above under, order = above ++ under ∧ s.shownTo point = above.flatMap s.bars := by
  have member := List.mem_of_getLast? last
  obtain ⟨init, bars⟩ := List.getLast?_eq_some_iff.mp last
  obtain ⟨before, after, split⟩ :=
    List.append_of_mem ((h.opened i).mpr (List.ne_nil_of_mem member))
  have visible : s.layout.visible =
      (before.flatMap s.bars ++ init) ++ point :: after.flatMap s.bars := by
    rw [h.visible, split]
    simp [bars]
  have once := h.visible_nodup
  rw [← h.visible, visible] at once
  have fresh : point ∉ before.flatMap s.bars ++ init := fun inside =>
    (List.nodup_append'.mp once).2.2 inside List.mem_cons_self
  refine ⟨before ++ [i], after, by simp [split], ?_⟩
  have shown : s.shownTo point = upTo point s.layout.visible :=
    filter_upTo (by simpa using (h.bar_placed member).2) _
  rw [shown, visible, upTo_append fresh]
  simp [bars]

theorem anchored {i : ι} {point : LayoutNode} (last : (s.bars i).getLast? = some point) :
    Apart { s with layout := s.layout.setAnchor point } order where
  wellFormed := ⟨h.wellFormed.nodup, h.wellFormed.fresh, fun _ same =>
    Option.some.inj same ▸ (h.bar_placed (List.mem_of_getLast? last)).1⟩
  cleared := h.cleared
  empty := nofun
  nodup := h.nodup
  opened := h.opened
  visible := h.visible
  boundary _ same := Option.some.inj same ▸ h.boundary_of_last last

theorem called {call : MultiCall} (quiet : call.Quiet) :
    Apart { s with layout := s.layout.calling [call] } order := by
  have cleared : (s.layout.calling [call]).multi.cleared = s.layout.multi.cleared := by
    simp [TaskLayout.calling, MultiProgress.cleared, quiet.2]
  refine ⟨h.wellFormed.of_place rfl, ?_, h.empty, h.nodup, h.opened, ?_, fun a is_anchor => ?_⟩
  · rw [cleared]
    exact h.cleared
  · rw [← h.visible]
    simp only [TaskLayout.visible, MultiProgress.visible, cleared]
    rfl
  · obtain ⟨above, under, split, shown⟩ := h.boundary a is_anchor
    refine ⟨above, under, split, ?_⟩
    rw [← shown]
    simp only [shownTo, cleared]
    rfl

variable [DecidableEq ι]

theorem insertAfter {i : ι} {target : LayoutNode} (member : target ∈ s.bars i) :
    Apart ⟨(s.layout.insertAfter target).2, Function.update s.bars i
      (spliceAfter target (s.layout.insertAfter target).1 (s.bars i))⟩ order := by
  obtain ⟨placed, shown⟩ := h.bar_placed member
  have keep (l : List LayoutNode) :
      (spliceAfter target ⟨s.layout.nodeCounter⟩ l).filter (· ∉ s.layout.multi.cleared) =
        spliceAfter target ⟨s.layout.nodeCounter⟩ (l.filter (· ∉ s.layout.multi.cleared)) :=
    filter_spliceAfter (by simpa using shown) (by simpa using h.next_shown) l
  have cleared : (s.layout.insertAfter target).2.multi.cleared = s.layout.multi.cleared :=
    MultiProgress.cleared_insertAfter _ _ _
  refine ⟨h.wellFormed.insertAfter placed, fun n old => ?_, fun none_anchor => ?_, h.nodup,
    fun j => ?_, ?_, fun a' is_anchor => ?_⟩
  · rw [cleared] at old
    exact Nat.lt_succ_of_lt (h.cleared n old)
  · have kept : s.layout.anchor = none := by
      by_cases same : s.layout.anchor = some target
      · simp [TaskLayout.insertAfter, same] at none_anchor
      · simpa [TaskLayout.insertAfter, same] using none_anchor
    rw [h.empty kept] at placed
    cases placed
  · by_cases same : j = i
    · subst same
      have grown : spliceAfter target (s.layout.insertAfter target).1 (s.bars j) ≠ [] :=
        List.ne_nil_of_mem ((spliceAfter_perm _ member).mem_iff.mpr List.mem_cons_self)
      simpa [grown] using (h.opened j).mpr (List.ne_nil_of_mem member)
    · simpa [same] using h.opened j
  · rw [← spliceAfter_flatMap h.nodup member (h.alone member), ← h.visible]
    simp only [TaskLayout.visible, MultiProgress.visible, cleared]
    exact keep s.layout.multi.ordering
  · obtain ⟨a, before, moved⟩ : ∃ a, s.layout.anchor = some a ∧
        a' = if a = target then ⟨s.layout.nodeCounter⟩ else a := by
      by_cases same : s.layout.anchor = some target
      · refine ⟨target, same, ?_⟩
        simpa [TaskLayout.insertAfter, TaskLayout.nextId, same, eq_comm] using is_anchor
      · have kept : s.layout.anchor = some a' := by
          simpa [TaskLayout.insertAfter, same] using is_anchor
        have other : a' ≠ target := fun h => same (h ▸ kept)
        exact ⟨a', kept, by simp [other]⟩
    obtain ⟨above, under, split, shown⟩ := h.boundary a before
    refine ⟨above, under, split, ?_⟩
    have nodup : above.Nodup := (List.nodup_append.mp (split ▸ h.nodup)).1
    rw [← spliceAfter_flatMap nodup member (h.alone member), ← shown, shownTo, cleared, moved]
    exact (congrArg _ (upTo_spliceAfter h.next_fresh (h.wellFormed.anchored a before))).trans
      (keep _)

theorem insert {i : ι} (unopened : s.bars i = []) :
    ∃ order', order.Sublist order' ∧
      Apart ⟨s.layout.insert.2, Function.update s.bars i [s.layout.insert.1]⟩ order' := by
  have outside : i ∉ order := fun member => (h.opened i).mp member unopened
  have opens (order' : List ι) (same : ∀ j, j ∈ order' ↔ j = i ∨ j ∈ order) (j : ι) :
      j ∈ order' ↔ Function.update s.bars i [s.layout.insert.1] j ≠ [] := by
    by_cases new : j = i
    · simp [same, new]
    · simp [same, new, h.opened]
  have wellFormed := h.wellFormed.insert
  have placed : s.layout.insert.2.anchor = none → s.layout.insert.2.multi.ordering = [] :=
    fun absent => by cases absent
  cases is_anchor : s.layout.anchor with
  | none =>
    have ordering : s.layout.insert.2.multi.ordering = [s.layout.insert.1] := by
      simp [TaskLayout.insert, is_anchor, MultiProgress.add, h.empty is_anchor]
    have cleared : s.layout.insert.2.multi.cleared = s.layout.multi.cleared := by
      simp [TaskLayout.insert, is_anchor]
    have bare : order = [] := by
      refine List.eq_nil_iff_forall_not_mem.mpr fun j member => ?_
      obtain ⟨n, bar⟩ := List.exists_mem_of_ne_nil _ ((h.opened j).mp member)
      have placed := (h.bar_placed bar).1
      rw [h.empty is_anchor] at placed
      cases placed
    have shown : s.layout.insert.1 ∉ s.layout.multi.cleared := h.next_shown
    have nodup : [i].Nodup := List.nodup_singleton i
    refine ⟨[i], by simp [bare], wellFormed, fun n old => ?_, placed, nodup,
      opens [i] (by simp [bare]), ?_, fun a same => ⟨[i], [], rfl, ?_⟩⟩
    · rw [cleared] at old
      exact Nat.lt_succ_of_lt (h.cleared n old)
    · simp [TaskLayout.visible, MultiProgress.visible, ordering, cleared, shown]
    · obtain rfl : s.layout.insert.1 = a := Option.some.inj same
      simp [shownTo, ordering, cleared, shown, upTo]
  | some a =>
    obtain ⟨above, under, split, shown⟩ := h.boundary a is_anchor
    have ordering : s.layout.insert.2.multi.ordering =
        upTo a s.layout.multi.ordering ++ s.layout.insert.1 :: below a s.layout.multi.ordering := by
      rw [TaskLayout.insert_of_anchor is_anchor,
        ← spliceAfter_eq_cut _ (h.wellFormed.anchored a is_anchor)]
      rfl
    have cleared : s.layout.insert.2.multi.cleared = s.layout.multi.cleared := by
      simp [TaskLayout.insert, is_anchor]
    have next : s.layout.insert.1 ∉ s.layout.multi.cleared := h.next_shown
    -- what is shown below the anchor is the rest of the elements
    have rest : (below a s.layout.multi.ordering).filter (· ∉ s.layout.multi.cleared) =
        under.flatMap s.bars := by
      have whole := h.visible
      rw [TaskLayout.visible, MultiProgress.visible, ← upTo_append_below a s.layout.multi.ordering,
        List.filter_append, split, List.flatMap_append] at whole
      rw [shownTo] at shown
      rw [shown] at whole
      exact List.append_cancel_left whole
    rw [split] at outside
    have outside := not_or.mp fun member => outside (List.mem_append.mpr member)
    have nodup : (above ++ i :: under).Nodup :=
      List.nodup_middle.mpr (List.nodup_cons.mpr ⟨by simpa using outside, split ▸ h.nodup⟩)
    have blocks : ((above ++ [i]) ++ under).flatMap
        (Function.update s.bars i [s.layout.insert.1]) =
          above.flatMap s.bars ++ s.layout.insert.1 :: under.flatMap s.bars := by
      simp [flatMap_update outside.1, flatMap_update outside.2]
    have grown : order.Sublist (above ++ i :: under) :=
      split ▸ (List.Sublist.refl above).append (List.sublist_cons_self i under)
    refine ⟨above ++ i :: under, grown, wellFormed, fun n old => ?_, placed, nodup,
      opens _ fun j => ?_, ?_, fun a' same => ⟨above ++ [i], under, by simp, ?_⟩⟩
    · rw [cleared] at old
      exact Nat.lt_succ_of_lt (h.cleared n old)
    · simp [split, or_left_comm]
    · rw [List.append_cons, blocks, ← rest, ← shown, shownTo]
      simp [TaskLayout.visible, MultiProgress.visible, ordering, cleared, next]
    · obtain rfl : s.layout.insert.1 = a' := Option.some.inj same
      have fresh : s.layout.insert.1 ∉ upTo a s.layout.multi.ordering := fun old => by
        have inside := List.mem_append_left (below a s.layout.multi.ordering) old
        rw [upTo_append_below] at inside
        exact h.next_fresh inside
      rw [List.flatMap_append, flatMap_update outside.1, ← shown, shownTo, shownTo, ordering,
        cleared, upTo_append fresh]
      simp [next]

theorem finishAndClear {i : ι} {bar : LayoutNode} (member : bar ∈ (s.bars i).tail) :
    Apart ⟨s.layout.clearing [bar], Function.update s.bars i ((s.bars i).filter (· ≠ bar))⟩
      order := by
  have inside : bar ∈ s.bars i := List.mem_of_mem_tail member
  have cleared : (s.layout.clearing [bar]).multi.cleared = s.layout.multi.cleared ++ [bar] := by
    simp [TaskLayout.clearing, TaskLayout.calling, MultiProgress.cleared, MultiCall.cleared]
  have hides (l : List LayoutNode) : l.filter (· ∉ s.layout.multi.cleared ++ [bar]) =
      (l.filter (· ∉ s.layout.multi.cleared)).filter (· ≠ bar) := by
    rw [List.filter_filter]
    refine List.filter_congr fun n _ => ?_
    simp [and_comm]
  have leaves (order : List ι) : (order.flatMap s.bars).filter (· ≠ bar) =
      order.flatMap (Function.update s.bars i ((s.bars i).filter (· ≠ bar))) := by
    rw [List.filter_flatMap]
    refine List.flatMap_congr fun j _ => ?_
    by_cases same : j = i
    · rw [same, Function.update_self]
    · rw [Function.update_of_ne same, List.filter_eq_self]
      intro n member
      have other : n ≠ bar := fun eq => h.alone inside j same (eq ▸ member)
      simpa using other
  refine ⟨h.wellFormed.of_place rfl, fun n old => ?_, h.empty, h.nodup, fun j => ?_, ?_,
    fun a is_anchor => ?_⟩
  · rw [cleared] at old
    rcases List.mem_append.mp old with old | new
    · exact h.cleared n old
    · rw [List.mem_singleton.mp new]
      exact h.wellFormed.fresh bar (h.bar_placed inside).1
  · by_cases same : j = i
    · subst same
      obtain ⟨head, rest, bars⟩ := List.exists_cons_of_ne_nil (List.ne_nil_of_mem inside)
      have once := h.bars_nodup j
      rw [bars] at once member
      have kept : head ≠ bar := fun eq => (List.nodup_cons.mp once).1 (eq ▸ member)
      simpa [bars, kept] using (h.opened j).mpr (List.ne_nil_of_mem inside)
    · simpa [same] using h.opened j
  · rw [← leaves, ← h.visible]
    simp only [TaskLayout.visible, MultiProgress.visible, cleared]
    exact hides s.layout.multi.ordering
  · obtain ⟨above, under, split, shown⟩ := h.boundary a is_anchor
    refine ⟨above, under, split, ?_⟩
    rw [← leaves, ← shown]
    simp only [shownTo, cleared]
    exact hides _

theorem step {call : LayoutCall ι} {next : Threads ι} (settles : s.Settles call)
    (taken : s.step call = some next) : ∃ order', order.Sublist order' ∧ next.Apart order' := by
  cases call with
  | insert i =>
    simp only [Threads.step] at taken
    split_ifs at taken with unopened
    exact Option.some.inj taken ▸ h.insert unopened
  | insertAfter i target =>
    simp only [Threads.step] at taken
    split_ifs at taken with member
    exact ⟨order, .refl order, Option.some.inj taken ▸ h.insertAfter member⟩
  | finishAndClear i bar =>
    simp only [Threads.step] at taken
    split_ifs at taken with member
    exact ⟨order, .refl order, Option.some.inj taken ▸ h.finishAndClear member⟩
  | setAnchor i point =>
    simp only [Threads.step] at taken
    split_ifs at taken with last
    exact ⟨order, .refl order, Option.some.inj taken ▸ h.anchored last⟩
  | updateAnchorIfIn i nodes mainNode =>
    simp only [Threads.step] at taken
    split_ifs at taken
    rw [← Option.some.inj taken]
    unfold TaskLayout.updateAnchorIfIn
    split
    · rename_i a is_anchor
      split_ifs with member
      · exact ⟨order, .refl order, h.anchored (settles ⟨a, is_anchor, member⟩)⟩
      · exact ⟨order, .refl order, h⟩
    · exact ⟨order, .refl order, h⟩
  | onBar call =>
    simp only [Threads.step] at taken
    split_ifs at taken with quiet
    exact ⟨order, .refl order, Option.some.inj taken ▸ h.called quiet⟩

end Apart

/-- The screen shows the elements in an order, each as a whole. -/
def Shows (s : Threads ι) (order : List ι) : Prop :=
  order.Nodup ∧ (∀ i, i ∈ order ↔ s.bars i ≠ []) ∧ s.layout.visible = order.flatMap s.bars

theorem Apart.shows {s : Threads ι} {order : List ι} (h : s.Apart order) : s.Shows order :=
  ⟨h.nodup, h.opened, h.visible⟩

theorem Apart.run [DecidableEq ι] {calls : List (LayoutCall ι)} {s t : Threads ι} {order : List ι}
    (h : s.Apart order) (settles : Guarded Settles Threads.step s calls)
    (reached : Machine.run Threads.step s calls = some t) :
    ∃ order', order.Sublist order' ∧ t.Apart order' :=
  run_guarded (fun t : Threads ι => ∃ order', order.Sublist order' ∧ t.Apart order')
    (fun _ _ _ ⟨_, grown, apart⟩ allowed taken =>
      have ⟨order', more, apart'⟩ := apart.step allowed taken
      ⟨order', grown.trans more, apart'⟩)
    ⟨order, .refl order, h⟩ settles reached

/-- In every interleaving the screen shows whole elements, which never change places, as
long as no element takes the anchor back to its head over a report. -/
theorem elements_never_mix [DecidableEq ι] {calls later : List (LayoutCall ι)} {s t : Threads ι}
    (settles : Guarded Settles step start calls) (reached : run step start calls = some s)
    (settlesLater : Guarded Settles step s later) (continued : run step s later = some t) :
    ∃ order order' : List ι, order.Sublist order' ∧ s.Shows order ∧ t.Shows order' := by
  obtain ⟨order, -, apart⟩ := start_apart.run settles reached
  obtain ⟨order', grown, apart'⟩ := apart.run settlesLater continued
  exact ⟨order, order', grown, apart.shows, apart'.shows⟩

def overlapping : List (LayoutCall Bool) :=
  [.insert false, .insert true, .insertAfter false ⟨0⟩, .insertAfter true ⟨1⟩,
    .setAnchor false ⟨2⟩, .insertAfter true ⟨1⟩]

def clearing : List (LayoutCall Bool) :=
  [.finishAndClear false ⟨2⟩, .updateAnchorIfIn false [⟨2⟩] ⟨0⟩, .insertAfter true ⟨4⟩]

theorem elements_never_mix_overlapping :
    ∃ s t, run step start overlapping = some s ∧ run step s clearing = some t ∧
      ∃ order order' : List Bool, order.Sublist order' ∧ s.Shows order ∧ t.Shows order' := by
  have begun : Guarded Settles step start overlapping := by decide
  exact ⟨_, _, rfl, rfl,
    elements_never_mix begun rfl (show Guarded Settles step _ clearing by decide) rfl⟩

section Reaches

variable [DecidableEq ι] {s t : Threads ι} {i : ι}

abbrev Reaches : Threads ι → Threads ι → Prop :=
  Relation.ReflTransGen fun s t => ∃ call, s.Settles call ∧ s.step call = some t

theorem Reaches.run (reaches : s.Reaches t) :
    ∃ calls, Guarded Settles step s calls ∧ Machine.run step s calls = some t := by
  induction reaches using Relation.ReflTransGen.head_induction_on with
  | refl => exact ⟨[], trivial, rfl⟩
  | head taken _ ih =>
    obtain ⟨call, settles, taken⟩ := taken
    obtain ⟨calls, guarded, reached⟩ := ih
    refine ⟨call :: calls, ⟨settles, fun next same => ?_⟩, ?_⟩
    · rw [taken] at same
      exact Option.some.inj same ▸ guarded
    · exact run_cons_eq_some.mpr ⟨_, taken, reached⟩

theorem Reaches.apart (reaches : s.Reaches t) (apart : ∃ order, s.Apart order) :
    ∃ order, t.Apart order := by
  induction reaches with
  | refl => exact apart
  | tail _ taken ih =>
    obtain ⟨call, settles, taken⟩ := taken
    obtain ⟨_, before⟩ := ih
    obtain ⟨order', -, after⟩ := before.step settles taken
    exact ⟨order', after⟩

theorem reaches_quietly {l : TaskLayout} (quietly : s.layout.Quietly l) :
    s.Reaches { s with layout := l } := by
  obtain ⟨calls, quiet, rfl⟩ := quietly
  induction calls generalizing s with
  | nil =>
    rw [show s.layout.calling [] = s.layout by simp [TaskLayout.calling]]
  | cons call calls ih =>
    have first : s.step (.onBar call) = some { s with layout := s.layout.calling [call] } :=
      if_pos (quiet call List.mem_cons_self)
    have rest := ih (s := { s with layout := s.layout.calling [call] })
      fun c member => quiet c (List.mem_cons_of_mem _ member)
    rw [TaskLayout.calling_calling] at rest
    exact .head ⟨.onBar call, trivial, first⟩ rest

theorem reaches_insertAfter {target : LayoutNode} {front back : List LayoutNode}
    (own : s.bars i = front ++ target :: back) (fresh : target ∉ front) :
    s.Reaches ⟨(s.layout.insertAfter target).2, Function.update s.bars i
      (front ++ target :: (s.layout.insertAfter target).1 :: back)⟩ := by
  have taken : s.step (.insertAfter i target) = some ⟨(s.layout.insertAfter target).2,
      Function.update s.bars i (spliceAfter target (s.layout.insertAfter target).1 (s.bars i))⟩ :=
    if_pos (by simp [own])
  rw [own, spliceAfter_append fresh] at taken
  exact .single ⟨.insertAfter i target, trivial, taken⟩

theorem reaches_clearing {head : LayoutNode} {rest gone : List LayoutNode}
    (own : s.bars i = head :: rest) (nodup : gone.Nodup) (inside : ∀ n ∈ gone, n ∈ rest)
    (outside : head ∉ gone) :
    s.Reaches ⟨s.layout.clearing gone,
      Function.update s.bars i (head :: rest.filter (· ∉ gone))⟩ := by
  induction gone generalizing s rest with
  | nil =>
    have same : Function.update s.bars i (head :: rest.filter (· ∉ ([] : List LayoutNode))) =
        s.bars := by
      simp [← own]
    have untouched : s.layout.clearing [] = s.layout := by
      simp [TaskLayout.clearing, TaskLayout.calling]
    rw [same, untouched]
  | cons bar gone ih =>
    obtain ⟨fresh, nodup⟩ := List.nodup_cons.mp nodup
    obtain ⟨other, outside⟩ := not_or.mp fun same => outside (List.mem_cons.mpr same)
    have taken : s.step (.finishAndClear i bar) = some ⟨s.layout.clearing [bar],
        Function.update s.bars i ((s.bars i).filter (· ≠ bar))⟩ :=
      if_pos (by simpa [own] using inside bar List.mem_cons_self)
    have kept : (s.bars i).filter (· ≠ bar) = head :: rest.filter (· ≠ bar) := by
      simp [own, other]
    rw [kept] at taken
    have later := ih (s := ⟨s.layout.clearing [bar],
        Function.update s.bars i (head :: rest.filter (· ≠ bar))⟩) (Function.update_self ..) nodup
      (fun n member => by
        have differs : n ≠ bar := fun same => fresh (same ▸ member)
        simp [inside n (List.mem_cons_of_mem _ member), differs])
      outside
    have all : (rest.filter (· ≠ bar)).filter (· ∉ gone) = rest.filter (· ∉ bar :: gone) := by
      rw [List.filter_filter]
      refine List.filter_congr fun n _ => ?_
      simp [Bool.and_comm]
    rw [all, Function.update_idem, TaskLayout.clearing_clearing] at later
    exact .head ⟨.finishAndClear i bar, trivial, taken⟩ later

theorem reaches_updateAnchor {nodes : List LayoutNode} {mainNode : LayoutNode}
    (own : s.bars i = [mainNode]) :
    s.Reaches { s with layout := s.layout.updateAnchorIfIn nodes mainNode } := by
  have taken : s.step (.updateAnchorIfIn i nodes mainNode) =
      some { s with layout := s.layout.updateAnchorIfIn nodes mainNode } := if_pos (by simp [own])
  have settles : s.Settles (.updateAnchorIfIn i nodes mainNode) := fun _ => by simp [own]
  exact .single ⟨_, settles, taken⟩

theorem reaches_move {b b' : Block} {l : TaskLayout} {node : LayoutNode}
    (move : Move (b, s.layout) (b', l)) (own : s.bars i = b.display) (nodup : b.display.Nodup)
    (head' : b'.head = .interactive node []) :
    s.Reaches ⟨l, Function.update s.bars i b'.display⟩ := by
  cases move with
  | quiet quietly =>
    rw [← own, Function.update_eq_self]
    exact reaches_quietly quietly
  | headReport head => cases head'
  | @entryReport _ _ bar inserted before after entries =>
    have display : b.display = (b.head.display ++ before.flatMap TaskRenderingStrategy.display) ++
        bar :: (inserted.reverse ++ after.flatMap TaskRenderingStrategy.display) := by
      simp [Block.display, entries, TaskRenderingStrategy.display]
    rw [display] at own nodup
    have fresh := fun member => (List.nodup_append'.mp nodup).2.2 member List.mem_cons_self
    have taken := reaches_insertAfter own fresh
    simpa [Block.display, TaskRenderingStrategy.display] using taken
  | @append _ _ first target empty last =>
    obtain ⟨front, display⟩ := List.getLast?_eq_some_iff.mp last
    rw [display] at nodup
    have fresh := fun member => (List.nodup_append'.mp nodup).2.2 member List.mem_cons_self
    have taken := reaches_insertAfter (own.trans display) fresh
    rw [Block.display_append]
    simpa [display, TaskRenderingStrategy.display] using taken
  | @clear _ _ first inserted head =>
    obtain ⟨rfl, rfl⟩ := TaskRenderingStrategy.interactive.inj (head.symm.trans head')
    have display : b.display = first :: b.entries.flatMap TaskRenderingStrategy.display := by
      simp [Block.display, head, TaskRenderingStrategy.display]
    have perm := perm_flatMap_display b.entries
    rw [display] at own nodup
    obtain ⟨outside, nodup⟩ := List.nodup_cons.mp nodup
    have cleared := reaches_clearing own (perm.nodup_iff.mp nodup)
      (fun n member => perm.mem_iff.mpr member) fun member => outside (perm.mem_iff.mpr member)
    have none_left : (b.entries.flatMap TaskRenderingStrategy.display).filter
        (· ∉ b.entries.flatMap TaskRenderingStrategy.nodes) = [] :=
      List.filter_eq_nil_iff.mpr fun n member => by simpa using perm.mem_iff.mp member
    rw [none_left] at cleared
    have bare : Block.display ⟨b.head, []⟩ = [first] := by
      simp [Block.display, head, TaskRenderingStrategy.display]
    rw [bare]
    exact cleared.trans (reaches_updateAnchor (Function.update_self ..))

theorem head_of_move {b b' : Block} {l l' : TaskLayout} {node : LayoutNode}
    (move : Move (b, l) (b', l')) (head' : b'.head = .interactive node []) :
    b.head = .interactive node [] := by
  cases move with
  | headReport head => cases head'
  | quiet | entryReport | append | clear => exact head'

theorem reaches_moves {b b' : Block} {l : TaskLayout} {node : LayoutNode}
    (moves : Moves (b, s.layout) (b', l)) (apart : ∃ order, s.Apart order)
    (own : s.bars i = b.display) (head' : b'.head = .interactive node []) :
    s.Reaches ⟨l, Function.update s.bars i b'.display⟩ := by
  generalize last : (b', l) = t at moves
  induction moves generalizing b' l with
  | refl =>
    obtain ⟨rfl, rfl⟩ := Prod.mk.inj last
    rw [← own, Function.update_eq_self]
  | @tail mid _ _ move ih =>
    obtain ⟨b₁, l₁⟩ := mid
    subst last
    have before := ih (head_of_move move head') rfl
    obtain ⟨order, apart₁⟩ := before.apart apart
    have own₁ : Function.update s.bars i b₁.display i = b₁.display := Function.update_self ..
    have after := reaches_move (s := ⟨l₁, Function.update s.bars i b₁.display⟩) move own₁
      (own₁ ▸ apart₁.bars_nodup i) head'
    rw [Function.update_idem] at after
    exact before.trans after

end Reaches

end Threads

namespace Session

def threads (s : Session) : Threads Nat :=
  ⟨s.screen.layout, fun i => s.slots[i]?.elim [] fun slot => slot.element.block.display⟩

variable {s next : Session} {i : Nat} {element : Element}

theorem threads_own (found : s.get? i = some element) :
    s.threads.bars i = element.block.display := by
  simp [threads, get?_eq_some found]

theorem threads_set (found : s.get? i = some element) (element' : Element) (owned : Bool)
    (w : Screen) : (s.set i element' owned w).threads =
      ⟨w.layout, Function.update s.threads.bars i element'.block.display⟩ := by
  have inside := (List.getElem?_eq_some_iff.mp (get?_eq_some found)).1
  refine congrArg (Threads.mk w.layout) (funext fun j => ?_)
  by_cases same : j = i
  · subst same
    simp [set, inside]
  · have other : i ≠ j := fun eq => same eq.symm
    simp [threads, set, same, other]

theorem threads_push (element : Element) (w : Screen) : (s.push element w).threads =
    ⟨w.layout, Function.update s.threads.bars s.slots.length element.block.display⟩ := by
  refine congrArg (Threads.mk w.layout) (funext fun j => ?_)
  rcases Nat.lt_trichotomy j s.slots.length with before | same | after
  · simp [threads, push, before, before.ne, List.getElem?_append_left before]
  · simp [push, same]
  · have outside : (s.slots ++ [⟨element, true⟩])[j]? = none :=
      List.getElem?_eq_none (by simpa using Nat.succ_le_of_lt after)
    simp [threads, push, outside, after.ne', after.le]

end Session

/-- A bulk failure takes the anchor back to a head over its report. -/
def SessionOp.Bulk : SessionOp → Prop
  | endTask _ (.fail _) => True
  | _ => False

theorem Element.Does.reaches {t : Threads Nat} {slot : Nat} {w w' : Screen} {op : SessionOp}
    {element element' : Element} {owned : Bool} (does : Does w op element element' owned w')
    (calm : ¬ op.Bulk) (head : ∃ node, element.block.head = .interactive node [])
    (layout : t.layout = w.layout) (apart : ∃ order, t.Apart order)
    (own : t.bars slot = element.block.display) :
    t.Reaches ⟨w'.layout, Function.update t.bars slot element'.block.display⟩ := by
  obtain ⟨moves, -⟩ := does.moves head
  rw [← layout] at moves
  obtain ⟨node, head⟩ := head
  have keeps (head' : element'.block.head = .interactive node []) :=
    Threads.reaches_moves moves apart own head'
  cases does with
  | task i t op =>
    exact keeps ((congrArg TaskRenderer.strategy (Task.steady_step head op).renderer).trans head)
  | endTask i t e =>
    have steady : Task.Steady (t, w) (Task.consume (t, w) e) := by
      cases e with
      | ok msg => exact Task.steady_performOk head msg
      | skip msg => exact Task.steady_performSkip head msg
      | fail error => exact absurd trivial calm
    exact keeps ((congrArg TaskRenderer.strategy steady.renderer).trans head)
  | sequence i moved =>
    have steady := TaskSequence.steady_step head moved
    exact keeps ((congrArg TaskRenderer.strategy steady.renderer).trans head)
  | runStep | endStepOk | endStepSkip => exact keeps head
  | endStepFail i p error =>
    obtain ⟨l, first, renderer, last⟩ :=
      p.renderer.failInsert_of_interactive (p.time w).2 head error (p.time w).1
    rw [Step.layout_time, ← layout] at first
    have bare : t.bars slot = [] ++ node :: [] := by
      rw [own]
      simp only [Element.block] at head ⊢
      simp [Block.display, head, TaskRenderingStrategy.display]
    have shown : (Element.step (p.performFail error w).1).block.display =
        [] ++ node :: [(l.insertAfter node).1] := by
      simp [Element.block, Step.performFail, renderer, Block.display, TaskRenderingStrategy.display]
    rw [shown]
    have report := Threads.reaches_insertAfter (s := { t with layout := l }) bare List.not_mem_nil
    exact ((Threads.reaches_quietly first).trans report).trans (Threads.reaches_quietly last)

namespace Session

variable {s next : Session} {op : SessionOp}

theorem create_eq_push (created : s.create op = some next) :
    ∃ element w, next = s.push element w := by
  cases op with
  | space => exact ⟨_, _, (Option.some.inj created).symm⟩
  | newStep => exact ⟨_, _, (Option.some.inj created).symm⟩
  | newTask =>
    obtain ⟨_, -, eq⟩ := Option.bind_eq_some_iff.mp created
    exact ⟨_, _, (Option.some.inj eq).symm⟩
  | newSequence =>
    obtain ⟨_, -, eq⟩ := Option.bind_eq_some_iff.mp created
    exact ⟨_, _, (Option.some.inj eq).symm⟩
  | task | endTask | sequence | runStep | endStep => cases created

theorem create_reaches (tidy : s.Tidy) (apart : ∃ order, s.threads.Apart order)
    (created : s.create op = some next) : s.threads.Reaches next.threads := by
  obtain ⟨tidy', b, blocks, moves⟩ := create_creates tidy op created
  obtain ⟨element, w, rfl⟩ := create_eq_push created
  obtain rfl : element.block = b := by simpa [Session.blocks, push] using blocks
  obtain ⟨node, head⟩ := tidy' ⟨element, true⟩ (by simp [push]) rfl
  have opened : s.threads.step (.insert s.slots.length) = some ⟨s.screen.layout.insert.2,
      Function.update s.threads.bars s.slots.length [s.screen.layout.insert.1]⟩ :=
    if_pos (by simp [threads])
  have first : s.threads.Reaches _ := .single ⟨.insert s.slots.length, trivial, opened⟩
  have rest := Threads.reaches_moves moves (first.apart apart) (Function.update_self ..) head
  rw [Function.update_idem] at rest
  rw [threads_push]
  exact first.trans rest

theorem step_reaches (tidy : s.Tidy) (apart : ∃ order, s.threads.Apart order)
    (calm : ¬ op.Bulk) (taken : s.step op = some next) : s.threads.Reaches next.threads := by
  cases creation : op.creates with
  | true =>
    have created : s.create op = some next := by
      cases op with
      | space | newStep | newTask | newSequence => exact taken
      | task | endTask | sequence | runStep | endStep => cases creation
    exact create_reaches tidy apart created
  | false =>
    obtain ⟨i, element, element', owned, w, -, found, does, rfl⟩ := step_cases creation taken
    rw [threads_set found]
    exact does.reaches calm (tidy.head found) rfl apart (threads_own found)

/-- The calls of a program without bulk failures, on one thread. -/
theorem run_reaches {clock : Nat → Instant} {ops : List SessionOp} (calm : ∀ op ∈ ops, ¬ op.Bulk)
    (reached : run step (new clock) ops = some s) : Threads.start.Reaches s.threads := by
  have guarded : Guarded (fun _ op => ¬ op.Bulk) step (new clock) ops :=
    guarded_of_forall (fun op member _ => calm op member) _
  refine (run_guarded (fun s => s.Tidy ∧ Threads.start.Reaches s.threads) ?_ ?_ guarded reached).2
  · rintro s op next ⟨tidy, before⟩ calm taken
    refine ⟨?_, before.trans (step_reaches tidy ?_ calm taken)⟩
    · cases creation : op.creates with
      | true => exact (step_creates tidy creation taken).tidy
      | false => exact (step_calls tidy creation taken).tidy
    · exact before.apart ⟨[], Threads.start_apart⟩
  · refine ⟨(new_sound clock).tidy, ?_⟩
    rw [show (new clock).threads = Threads.start by simp [threads, new, Threads.start, Screen.new]]

end Session

end KnotOps.Terminal
